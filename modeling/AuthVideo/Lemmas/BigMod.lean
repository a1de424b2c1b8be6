import AuthVideo.Lemmas.BigNum

/-!
# The division of the boards

`big_mod` subtracts shifted copies of its divisor. It ends, with the remainder, when no copy is shifted by more than 8 words; such
a copy is written as zero, and the loop then goes on forever.
-/

namespace AuthVideo

open Words

/-! ## The highest bit -/

/-- The bits from `w` on of a word are zero when it is below `2 ^ w`. -/
theorem and_mask_eq_zero_iff {x : UInt32} (mask : UInt32) (w : Nat) (hw : w ≤ 32) (hmask : mask.toNat = 2 ^ 32 - 2 ^ w) :
    x &&& mask = 0 ↔ x.toNat < 2 ^ w := by
  have hpow : 2 ^ w ≤ 2 ^ 32 := Nat.pow_le_pow_right (by decide) hw
  have hpos := Nat.two_pow_pos w
  have hbit : ∀ i, mask.toNat.testBit i = (decide (i < 32) && !decide (i < w)) := by
    intro i
    have hsucc : mask.toNat = 2 ^ 32 - (2 ^ w - 1 + 1) := by omega
    rw [hsucc, Nat.testBit_two_pow_sub_succ (by omega), Nat.testBit_two_pow_sub_one]
  rw [← UInt32.toNat_inj, UInt32.toNat_and, UInt32.toNat_zero]
  constructor
  · intro hzero
    by_contra hge
    obtain ⟨i, hwi, hi⟩ := Nat.exists_ge_and_testBit_of_ge_two_pow (Nat.not_lt.mp hge)
    have hi32 : i < 32 := by
      by_contra h32
      have hlt := Nat.testBit_lt_two_pow (Nat.lt_of_lt_of_le x.toNat_lt (Nat.pow_le_pow_right (by decide) (Nat.not_lt.mp h32)))
      rw [hlt] at hi
      cases hi
    have hand := congrArg (Nat.testBit · i) hzero
    simp only [Nat.testBit_and, hi, hbit, hi32, Nat.zero_testBit] at hand
    simp at hand
    omega
  · intro hlt
    refine Nat.eq_of_testBit_eq ?_
    intro i
    rw [Nat.testBit_and, hbit, Nat.zero_testBit]
    by_cases hi : i < w
    · simp [hi]
    · have hfalse := Nat.testBit_lt_two_pow (Nat.lt_of_lt_of_le hlt (Nat.pow_le_pow_right (by decide) (Nat.not_lt.mp hi)))
      rw [hfalse, Bool.false_and]

/-- A line of `clz32` keeps the word times a power of two, and raises its highest bit. -/
theorem clzStep_spec (mask : UInt32) (k : Nat) (hk : 2 * k ≤ 32) (hmask : mask.toNat = 2 ^ 32 - 2 ^ (32 - k)) {x₀ : Nat}
    {s : Nat × UInt32} (hval : s.2.toNat = x₀ * 2 ^ s.1) (hlow : 2 ^ (32 - 2 * k) ≤ s.2.toNat) :
    (clzStep mask k s).2.toNat = x₀ * 2 ^ (clzStep mask k s).1 ∧ 2 ^ (32 - k) ≤ (clzStep mask k s).2.toNat := by
  obtain ⟨m, x⟩ := s
  simp only [clzStep, and_mask_eq_zero_iff mask (32 - k) (by omega) hmask]
  split
  · rename_i hlt
    have hk32 : (UInt32.ofNat k).toNat % 32 = k := by
      rw [UInt32.toNat_ofNat']
      omega
    have hfit : x.toNat * 2 ^ k < 2 ^ 32 := by
      calc x.toNat * 2 ^ k
        _ < 2 ^ (32 - k) * 2 ^ k := Nat.mul_lt_mul_of_pos_right hlt (Nat.two_pow_pos k)
        _ = 2 ^ 32 := by rw [← Nat.pow_add, Nat.sub_add_cancel (by omega)]
    have hshift : (x <<< UInt32.ofNat k).toNat = x.toNat * 2 ^ k := by
      rw [UInt32.toNat_shiftLeft, hk32, Nat.shiftLeft_eq, Nat.mod_eq_of_lt hfit]
    simp only [hshift]
    constructor
    · rw [hval, Nat.pow_add, Nat.mul_assoc]
    · calc 2 ^ (32 - k)
        _ = 2 ^ (32 - 2 * k) * 2 ^ k := by rw [← Nat.pow_add]; congr 1; omega
        _ ≤ x.toNat * 2 ^ k := Nat.mul_le_mul_right _ hlow
  · rename_i hge
    exact ⟨hval, Nat.not_lt.mp hge⟩

/-- The last line of `clz32` counts a bit and leaves the word where it is. -/
theorem clz32_last {x₀ : Nat} {s : Nat × UInt32} (hval : s.2.toNat = x₀ * 2 ^ s.1) (hlow : 2 ^ 30 ≤ s.2.toNat) :
    2 ^ 31 ≤ x₀ * 2 ^ (if s.2 &&& 0x80000000 = 0 then s.1 + 1 else s.1) ∧
      x₀ * 2 ^ (if s.2 &&& 0x80000000 = 0 then s.1 + 1 else s.1) < 2 ^ 32 := by
  simp only [and_mask_eq_zero_iff 0x80000000 31 (by decide) (by decide)]
  split
  · rename_i hlt
    have hdouble : x₀ * 2 ^ (s.1 + 1) = s.2.toNat * 2 := by rw [hval, Nat.pow_succ, Nat.mul_assoc]
    omega
  · rename_i hge
    rw [← hval]
    exact ⟨Nat.not_lt.mp hge, s.2.toNat_lt⟩

/-- `clz32` counts the zeros above the highest bit. -/
theorem clz32_spec {x : UInt32} (hx : x ≠ 0) : clz32 x ≤ 31 ∧ 2 ^ (31 - clz32 x) ≤ x.toNat ∧ x.toNat < 2 ^ (32 - clz32 x) := by
  have hpos : 2 ^ (32 - 2 * 16) ≤ x.toNat := by
    have hne : x.toNat ≠ 0 := fun h => hx (UInt32.toNat_inj.mp h)
    omega
  have hstart : x.toNat = x.toNat * 2 ^ 0 := (Nat.mul_one _).symm
  obtain ⟨hval, hlow⟩ := clzStep_spec 0xFFFF0000 16 (by decide) (by decide) (s := (0, x)) hstart hpos
  obtain ⟨hval, hlow⟩ := clzStep_spec 0xFF000000 8 (by decide) (by decide) hval hlow
  obtain ⟨hval, hlow⟩ := clzStep_spec 0xF0000000 4 (by decide) (by decide) hval hlow
  obtain ⟨hval, hlow⟩ := clzStep_spec 0xC0000000 2 (by decide) (by decide) hval hlow
  have htop : 2 ^ 31 ≤ x.toNat * 2 ^ clz32 x ∧ x.toNat * 2 ^ clz32 x < 2 ^ 32 := by
    rw [clz32, if_neg hx]
    exact clz32_last hval hlow
  have hle : clz32 x ≤ 31 := by
    by_contra hgt
    have h32 : 2 ^ 32 ≤ 2 ^ clz32 x := Nat.pow_le_pow_right (by decide) (by omega)
    have hmul : 1 * 2 ^ clz32 x ≤ x.toNat * 2 ^ clz32 x := Nat.mul_le_mul_right _ (by simpa using hpos)
    omega
  refine ⟨hle, Nat.le_of_mul_le_mul_right ?_ (Nat.two_pow_pos (clz32 x)), Nat.lt_of_mul_lt_mul_right (a := 2 ^ clz32 x) ?_⟩
  · rw [← Nat.pow_add, Nat.sub_add_cancel hle]
    exact htop.1
  · rw [← Nat.pow_add, Nat.sub_add_cancel (by omega)]
    exact htop.2

/-- The highest bit of an array, from its highest word down. -/
theorem topBitLoop_spec (ws : List UInt32) :
    match topBitLoop ws with
    | none => value ws.reverse = 0
    | some k => 2 ^ k ≤ value ws.reverse ∧ value ws.reverse < 2 ^ (k + 1) := by
  induction ws with
  | nil => rfl
  | cons w ws ih =>
    rw [topBitLoop, List.reverse_cons, value_concat, List.length_reverse]
    by_cases hw : w = 0
    · rw [if_neg (not_not.mpr hw), hw, UInt32.toNat_zero, Nat.mul_zero, Nat.add_zero]
      exact ih
    · rw [if_pos hw]
      obtain ⟨hle, hlow, hhigh⟩ := clz32_spec hw
      have hws := value_lt ws.reverse
      rw [List.length_reverse] at hws
      dsimp only
      constructor
      · rw [Nat.pow_add]
        exact Nat.le_trans (Nat.mul_le_mul_left _ hlow) (Nat.le_add_left _ _)
      · have hexp : 32 * ws.length + (31 - clz32 w) + 1 = 32 * ws.length + (32 - clz32 w) := by omega
        have hmul := Nat.mul_le_mul_left (2 ^ (32 * ws.length)) hhigh
        rw [Nat.mul_succ, ← Nat.pow_add] at hmul
        rw [hexp]
        omega

/-- The highest bit of an array. -/
theorem Limbs.topBit_spec {n : Nat} (a : Limbs n) :
    match a.topBit with
    | none => a.value = 0
    | some k => 2 ^ k ≤ a.value ∧ a.value < 2 ^ (k + 1) := by
  have h := topBitLoop_spec a.words.reverse
  rwa [List.reverse_reverse] at h

/-- The highest bit of an array is the binary logarithm of its value. -/
theorem Limbs.topBit_eq {n : Nat} (a : Limbs n) : a.topBit = if a.value = 0 then none else some a.value.log2 := by
  have h := a.topBit_spec
  cases hbit : a.topBit with
  | none =>
    rw [hbit] at h
    rw [if_pos h]
  | some k =>
    rw [hbit] at h
    have hne : a.value ≠ 0 := Nat.ne_of_gt (Nat.lt_of_lt_of_le (Nat.two_pow_pos k) h.1)
    rw [if_neg hne, (Nat.log2_eq_iff hne).mpr h]

/-! ## The loop -/

/-- The low half of a number that fits into it. -/
theorem low256_value {a : Uint512} (h : a.value < 2 ^ 256) : a.low256.value = a.value :=
  value_take (by rw [a.length_words]; decide) h

section Loop

variable {m : Uint256} {mBit : Nat}

/-- The invariant of the loop of `big_mod` for a dividend `A`: the remainder is kept, and what is left is less than two copies of
the divisor at the shift. -/
structure ModInv (m : Uint256) (mBit A : Nat) (s : Uint512 × Int) : Prop where
  mod_eq : s.1.value % m.value = A % m.value
  lt : s.1.value < m.value * 2 ^ (s.2 + 1 - mBit).toNat
  fits : s.2 ≤ 511
  shift : s.2 ≤ mBit + 287

/-- The variant: a turn lowers the bit, or takes off the copy at it. -/
def modVariant (m : Uint256) (mBit : Nat) (s : Uint512 × Int) : Nat :=
  2 * (s.2 + 1).toNat + if m.value * 2 ^ (s.2 - mBit).toNat ≤ s.1.value then 1 else 0

/-- The copy of the divisor at a shift of at most 287 bits within 512. -/
theorem shifted_value (hhigh : m.value < 2 ^ (mBit + 1)) {remBit : Int} (hge : (mBit : Int) ≤ remBit) (hfits : remBit ≤ 511)
    (hshift : remBit ≤ mBit + 287) :
    (big512Shl m ((remBit - mBit).toNat / 32) ((remBit - mBit).toNat % 32)).value =
        m.value * 2 ^ (remBit - mBit).toNat ∧
      m.value * 2 ^ (remBit - mBit).toNat < 2 ^ (remBit + 1).toNat := by
  have hlt : m.value * 2 ^ (remBit - mBit).toNat < 2 ^ (remBit + 1).toNat := by
    calc m.value * 2 ^ (remBit - mBit).toNat
      _ < 2 ^ (mBit + 1) * 2 ^ (remBit - mBit).toNat := Nat.mul_lt_mul_of_pos_right hhigh (Nat.two_pow_pos _)
      _ = 2 ^ (remBit + 1).toNat := by rw [← Nat.pow_add]; congr 1; omega
  have hsum : 32 * ((remBit - mBit).toNat / 32) + (remBit - mBit).toNat % 32 = (remBit - mBit).toNat := Nat.div_add_mod _ _
  have hval := big512Shl_value ((remBit - mBit).toNat / 32) ((remBit - mBit).toNat % 32) hhigh
    (by omega) (by omega) (by omega)
  rw [hsum] at hval
  exact ⟨hval, hlt⟩

/-- A power of two is at most the divisor shifted to it. -/
theorem pow_le_mul_pow (hlow : 2 ^ mBit ≤ m.value) (k : Nat) : 2 ^ (k + 1) ≤ m.value * 2 ^ ((k : Int) + 1 - mBit).toNat := by
  calc 2 ^ (k + 1)
    _ ≤ 2 ^ (mBit + ((k : Int) + 1 - mBit).toNat) := Nat.pow_le_pow_right (by decide) (by omega)
    _ = 2 ^ mBit * 2 ^ ((k : Int) + 1 - mBit).toNat := Nat.pow_add ..
    _ ≤ m.value * 2 ^ ((k : Int) + 1 - mBit).toNat := Nat.mul_le_mul_right _ hlow

/-- A turn that takes the copy off. What is left is zero, or its highest bit is at most the bit before. -/
theorem bigModTurn_of_le (hlow : 2 ^ mBit ≤ m.value) (hhigh : m.value < 2 ^ (mBit + 1)) {A : Nat} {rem : Uint512} {remBit : Int}
    (hinv : ModInv m mBit A (rem, remBit)) (hge : (mBit : Int) ≤ remBit)
    (htake : m.value * 2 ^ (remBit - mBit).toNat ≤ rem.value) :
    (∃ s', bigModTurn m mBit (rem, remBit) = some (.inl s') ∧ ModInv m mBit A s' ∧
      modVariant m mBit s' < modVariant m mBit (rem, remBit)) ∨
    ∃ r, bigModTurn m mBit (rem, remBit) = some (.inr r) ∧ r.value = A % m.value := by
  obtain ⟨hmod, hlt, hfits, hshift⟩ := hinv
  simp only at hmod hlt hfits hshift
  obtain ⟨hval, hcopy⟩ := shifted_value hhigh hge hfits hshift
  have hnext : (remBit + 1 - mBit).toNat = (remBit - mBit).toNat + 1 := by omega
  rw [hnext, Nat.pow_succ, ← Nat.mul_assoc] at hlt
  have hcmp := (bigCmp512_nonneg_iff rem _).mpr (hval ▸ htake)
  have hdiff : (bigSub512 rem (big512Shl m ((remBit - mBit).toNat / 32) ((remBit - mBit).toNat % 32))).1.value =
      rem.value - m.value * 2 ^ (remBit - mBit).toNat := by
    rw [bigSub512, subWords_of_le (hval ▸ htake), hval]
  have hmod' : (rem.value - m.value * 2 ^ (remBit - mBit).toNat) % m.value = A % m.value := by
    rw [Nat.sub_mul_mod htake, hmod]
  simp only [bigModTurn, if_pos hge, if_pos hcmp]
  set rem' := (bigSub512 rem (big512Shl m ((remBit - mBit).toNat / 32) ((remBit - mBit).toNat % 32))).1
  have htop := rem'.topBit_spec
  rw [← hdiff] at hmod'
  cases hbit : rem'.topBit with
  | none =>
    rw [hbit] at htop
    refine .inr ⟨.zero, rfl, ?_⟩
    rw [Limbs.value_zero, ← hmod', htop, Nat.zero_mod]
  | some k =>
    rw [hbit] at htop
    obtain ⟨hlowk, hhighk⟩ := htop
    have hless : rem'.value < m.value * 2 ^ (remBit - mBit).toNat := by omega
    have hk : k < (remBit + 1).toNat :=
      (Nat.pow_lt_pow_iff_right (by decide)).mp (Nat.lt_of_le_of_lt hlowk (Nat.lt_trans hless hcopy))
    refine .inl ⟨(rem', k), rfl, ⟨hmod', ?_, by simp only; omega, by simp only; omega⟩, ?_⟩
    · exact Nat.lt_of_lt_of_le hhighk (pow_le_mul_pow hlow k)
    · simp only [modVariant, if_pos htake]
      by_cases hsame : (k : Int) = remBit
      · rw [hsame, if_neg (Nat.not_le.mpr hless)]
        omega
      · split <;> omega

/-- A turn that finds the copy too large lowers the bit. -/
theorem bigModTurn_of_gt (hhigh : m.value < 2 ^ (mBit + 1)) {A : Nat} {rem : Uint512} {remBit : Int}
    (hinv : ModInv m mBit A (rem, remBit)) (hge : (mBit : Int) ≤ remBit)
    (htake : rem.value < m.value * 2 ^ (remBit - mBit).toNat) :
    bigModTurn m mBit (rem, remBit) = some (.inl (rem, remBit - 1)) ∧ ModInv m mBit A (rem, remBit - 1) ∧
      modVariant m mBit (rem, remBit - 1) < modVariant m mBit (rem, remBit) := by
  obtain ⟨hmod, -, hfits, hshift⟩ := hinv
  simp only at hmod hfits hshift
  obtain ⟨hval, -⟩ := shifted_value hhigh hge hfits hshift
  have hcmp : ¬bigCmp512 rem (big512Shl m ((remBit - mBit).toNat / 32) ((remBit - mBit).toNat % 32)) ≥ 0 := by
    rw [bigCmp512_nonneg_iff, hval]
    exact Nat.not_le.mpr htake
  have hsame : (remBit - 1 + 1 - mBit).toNat = (remBit - mBit).toNat := by omega
  refine ⟨by simp only [bigModTurn, if_pos hge, if_neg hcmp], ⟨hmod, ?_, ?_, ?_⟩, ?_⟩
  · rw [hsame]
    exact htake
  · simp only
    omega
  · simp only
    omega
  · simp only [modVariant, if_neg (Nat.not_le.mpr htake)]
    split <;> omega

/-- A turn of the loop of `big_mod`. -/
theorem bigModTurn_spec (hlow : 2 ^ mBit ≤ m.value) (hhigh : m.value < 2 ^ (mBit + 1)) (A : Nat) :
    Loop.Turn (bigModTurn m mBit) (ModInv m mBit A) (modVariant m mBit) (fun r => r.value = A % m.value) := by
  rintro ⟨rem, remBit⟩ hinv
  by_cases hge : (mBit : Int) ≤ remBit
  · rcases Nat.lt_or_ge rem.value (m.value * 2 ^ (remBit - mBit).toNat) with htake | htake
    · exact .inl ⟨_, bigModTurn_of_gt hhigh hinv hge htake⟩
    · exact bigModTurn_of_le hlow hhigh hinv hge htake
  · -- the bit is below the divisor's
    obtain ⟨hmod, hlt, -, -⟩ := hinv
    simp only at hmod hlt
    have hzero : (remBit + 1 - mBit).toNat = 0 := by omega
    rw [hzero, Nat.pow_zero, Nat.mul_one] at hlt
    refine .inr ⟨rem.low256, by simp only [bigModTurn, ge_iff_le, if_neg hge], ?_⟩
    dsimp only
    rw [low256_value (Nat.lt_trans hlt m.value_lt), ← hmod, Nat.mod_eq_of_lt hlt]

/-- `big_mod` ends with the remainder when the highest bit of the dividend is less than 288 places above that of the divisor. -/
theorem bigMod_of_log2 {fuel : Nat} (hfuel : 1026 ≤ fuel) {a : Uint512} {m : Uint256} (hm : 0 < m.value)
    (ha : a.value.log2 < m.value.log2 + 288) : ∃ r, bigMod fuel a m = some r ∧ r.value = a.value % m.value := by
  unfold bigMod
  rw [a.topBit_eq, m.topBit_eq, if_neg (Nat.ne_of_gt hm)]
  by_cases hzero : a.value = 0
  · rw [if_pos hzero]
    exact ⟨.zero, rfl, by rw [Limbs.value_zero, hzero, Nat.zero_mod]⟩
  · rw [if_neg hzero]
    obtain ⟨hlow, hhigh⟩ := (Nat.log2_eq_iff (Nat.ne_of_gt hm)).mp rfl
    obtain ⟨-, hahigh⟩ := (Nat.log2_eq_iff hzero).mp rfl
    by_cases hless : a.value.log2 < m.value.log2
    · have hlt : a.value < m.value :=
        Nat.lt_of_lt_of_le hahigh (Nat.le_trans (Nat.pow_le_pow_right (by decide) hless) hlow)
      exact ⟨a.low256, if_pos hless, by rw [low256_value (Nat.lt_trans hlt m.value_lt), Nat.mod_eq_of_lt hlt]⟩
    · have hfits : a.value.log2 < 32 * 16 := (Nat.log2_lt hzero).mpr a.value_lt
      have hinv : ModInv m m.value.log2 a.value (a, (a.value.log2 : Int)) :=
        ⟨rfl, Nat.lt_of_lt_of_le hahigh (pow_le_mul_pow hlow _), by simp only; omega, by simp only; omega⟩
      simp only [if_neg hless]
      refine Loop.iterate_of_variant (bigModTurn_spec hlow hhigh a.value) hinv (Nat.lt_of_lt_of_le ?_ hfuel)
      simp only [modVariant]
      split <;> omega

/-- A dividend below `2 ^ 256` copies of the divisor is one of them. -/
theorem bigMod_spec {fuel : Nat} (hfuel : 1026 ≤ fuel) {a : Uint512} {m : Uint256} (hm : 0 < m.value)
    (ha : a.value < m.value * 2 ^ 256) : ∃ r, bigMod fuel a m = some r ∧ r.value = a.value % m.value := by
  refine bigMod_of_log2 hfuel hm ?_
  by_cases hzero : a.value = 0
  · rw [hzero, Nat.log2_zero]
    exact Nat.succ_pos _
  · have hhigh := (Nat.log2_eq_iff (Nat.ne_of_gt hm)).mp rfl
    suffices hlt : a.value < 2 ^ (m.value.log2 + 257) from Nat.lt_trans ((Nat.log2_lt hzero).mpr hlt) (by omega)
    calc a.value
      _ < m.value * 2 ^ 256 := ha
      _ < 2 ^ (m.value.log2 + 1) * 2 ^ 256 := Nat.mul_lt_mul_of_pos_right hhigh.2 (Nat.two_pow_pos _)
      _ = 2 ^ (m.value.log2 + 257) := (Nat.pow_add ..).symm

/-- `big_mod` never ends when the highest bit of the dividend is 288 places or more above that of the divisor: the copy is zero, and
taking it off leaves the dividend and its highest bit as they are. -/
theorem bigMod_of_le_log2 (fuel : Nat) {a : Uint512} {m : Uint256} (hm : 0 < m.value)
    (ha : m.value.log2 + 288 ≤ a.value.log2) : bigMod fuel a m = none := by
  have hzero : a.value ≠ 0 := by
    intro h
    rw [h, Nat.log2_zero] at ha
    omega
  unfold bigMod
  rw [a.topBit_eq, m.topBit_eq, if_neg (Nat.ne_of_gt hm), if_neg hzero]
  simp only [if_neg (Nat.not_lt.mpr (show m.value.log2 ≤ a.value.log2 by omega))]
  have hstay : ∀ s : Uint512 × Int, s.1.value = a.value ∧ s.2 = (a.value.log2 : Int) →
      ∃ s', bigModTurn m m.value.log2 s = some (.inl s') ∧ s'.1.value = a.value ∧ s'.2 = (a.value.log2 : Int) := by
    rintro ⟨rem, remBit⟩ ⟨hvalue, hbit⟩
    simp only at hvalue hbit
    have hword : 8 < (remBit - m.value.log2).toNat / 32 := by omega
    have hcopy : big512Shl m ((remBit - m.value.log2).toNat / 32) ((remBit - m.value.log2).toNat % 32) = .zero := by
      rw [big512Shl, dif_pos hword]
    have hcmp := (bigCmp512_nonneg_iff rem .zero).mpr (by rw [Limbs.value_zero]; exact Nat.zero_le _)
    have hsub : (bigSub512 rem .zero).1.value = a.value := by
      rw [bigSub512, subWords_of_le (by rw [Limbs.value_zero]; exact Nat.zero_le _), Limbs.value_zero, hvalue, Nat.sub_zero]
    have htop : (bigSub512 rem .zero).1.topBit = some a.value.log2 := by
      rw [Limbs.topBit_eq, hsub, if_neg hzero]
    refine ⟨((bigSub512 rem .zero).1, a.value.log2), ?_, hsub, rfl⟩
    rw [bigModTurn, if_pos (by omega)]
    simp only [hcopy, if_pos hcmp, htop]
  exact Loop.iterate_of_stays hstay ⟨rfl, rfl⟩ fuel

end Loop

end AuthVideo
