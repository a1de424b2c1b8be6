import AuthVideo.Lemmas.ZucCells

/-!
# Theorems 35 and 36: the shift register of the boards

The constants that `zuc256_init_state` loads keep every cell from being zero, and the feedback keeps it so: the cells stay words
other than zero in every run, and the feedback is the recurrence of the cipher. The loading loses the byte 15 of an IV of 25 bytes
and nothing else.
-/

namespace AuthVideo

namespace CZuc

/-! ## The states of a run -/

/-- The cells that `zuc256_init_state` loads. -/
def loaded (key : Vector UInt8 32) (iv : Bytes) : Zuc256Ctx :=
  if iv.length = 16 then loadState16 key iv else loadState25 key iv

/-- The state after `k` steps: 32 rounds of the initialisation, the last one, which adds nothing, and then a word each. The last
round does to the state what a word does. -/
def stateAt (key : Vector UInt8 32) (iv : Bytes) : Nat → Zuc256Ctx
  | 0 => loaded key iv
  | k + 1 => if k < 32 then initRound (stateAt key iv k) else (zuc256KeystreamWord (stateAt key iv k)).2

theorem stateAt_rounds (key : Vector UInt8 32) (iv : Bytes) {k : Nat} (hk : k ≤ 32) :
    stateAt key iv k = (List.range k).foldl (fun ctx _ => initRound ctx) (loaded key iv) := by
  induction k with
  | zero => rfl
  | succ k ih =>
    rw [stateAt, if_pos (Nat.lt_of_succ_le hk), ih (Nat.le_of_succ_le hk), List.range_succ, List.foldl_append]
    rfl

/-- The state that `zuc256_init_state` leaves. -/
theorem stateAt_init (key : Vector UInt8 32) (iv : Bytes) : stateAt key iv 33 = zuc256InitState key iv := by
  rw [stateAt, if_neg (Nat.lt_irrefl 32), stateAt_rounds key iv (Nat.le_refl 32)]
  rfl

/-- The states that `zuc256_keystream` leaves. -/
theorem zuc256Keystream_stateAt (key : Vector UInt8 32) (iv : Bytes) (len : Nat) {k : Nat} (hk : 33 ≤ k) :
    (zuc256Keystream (stateAt key iv k) len).2 = stateAt key iv (k + (len + 3) / 4) := by
  induction len using Nat.strong_induction_on generalizing k with
  | _ len ih =>
    rw [zuc256Keystream]
    split
    · have hnext : (zuc256KeystreamWord (stateAt key iv k)).2 = stateAt key iv (k + 1) := by
        rw [stateAt, if_neg (by omega)]
      have hchunk : ∀ chunk, chunk = (if len > 4 then 4 else len) →
          k + 1 + (len - chunk + 3) / 4 = k + (len + 3) / 4 ∧ len - chunk < len := by
        intro chunk hchunk
        split at hchunk <;> omega
      obtain ⟨hcount, hlt⟩ := hchunk _ rfl
      dsimp only
      rw [hnext, ih _ hlt (by omega), hcount]
    · rename_i hzero
      have hlen : (len + 3) / 4 = 0 := by omega
      rw [hlen, Nat.add_zero]

/-! ## The cipher that replaces zero -/

/-- The replacement of a new cell that is zero by `2 ^ 31 - 1`. -/
def replaceZero (ctx : Zuc256Ctx) : Zuc256Ctx := if ctx.s[15]! = 0 then { ctx with s := ctx.s.set! 15 P31 } else ctx

/-- The states of the cipher with the replacement. -/
def stateAtReplacing (key : Vector UInt8 32) (iv : Bytes) : Nat → Zuc256Ctx
  | 0 => loaded key iv
  | k + 1 =>
    replaceZero (if k < 32 then initRound (stateAtReplacing key iv k) else (zuc256KeystreamWord (stateAtReplacing key iv k)).2)

theorem replaceZero_of_cells {ctx : Zuc256Ctx} (h : ctx.Cells) : replaceZero ctx = ctx := by
  have hpos : ctx.s[15]!.toNat ≠ 0 := Nat.ne_of_gt (h 15).1
  rw [replaceZero, if_neg]
  intro hzero
  rw [hzero] at hpos
  exact hpos rfl

theorem loaded_cells (key : Vector UInt8 32) (iv : Bytes) : (loaded key iv).Cells := by
  rw [loaded]
  split
  · exact loadState16_cells key iv
  · exact loadState25_cells key iv

/-- The invariant of the runs. -/
theorem stateAt_cells (key : Vector UInt8 32) (iv : Bytes) (k : Nat) : (stateAt key iv k).Cells := by
  induction k with
  | zero => exact loaded_cells key iv
  | succ k ih =>
    rw [stateAt]
    split
    · exact initRound_cells ih
    · exact keystreamWord_cells ih

/-- The new cell of a step. -/
theorem stateAt_s (key : Vector UInt8 32) (iv : Bytes) (k : Nat) :
    (stateAt key iv (k + 1)).s = shift (stateAt key iv k).s
      (if k < 32 then add31 (feedback (stateAt key iv k).s) (roundWord (stateAt key iv k)) else feedback (stateAt key iv k).s) := by
  rw [stateAt]
  split
  · exact initRound_s _
  · exact keystreamWord_s _

/-- Theorem 35 (register). In every run all cells are words of 31 bits other than zero; a step moves them down and takes in the
value of the recurrence, and in the 32 rounds the word of the initialisation with it; and the cipher that replaces zero runs through
the same states. They are the states that `zuc256_init_state` and `zuc256_keystream` leave. -/
theorem register_invariant (key : Vector UInt8 32) (iv : Bytes) (k : Nat) :
    (stateAt key iv 33 = zuc256InitState key iv ∧
        ∀ len, (zuc256Keystream (stateAt key iv (33 + k)) len).2 = stateAt key iv (33 + k + (len + 3) / 4)) ∧
      (∀ i : Fin 16, 1 ≤ ((stateAt key iv k).s.get i).toNat ∧ ((stateAt key iv k).s.get i).toNat ≤ 2 ^ 31 - 1) ∧
      (∀ i : Fin 15, (stateAt key iv (k + 1)).s.get i.castSucc = (stateAt key iv k).s.get i.succ) ∧
      ((stateAt key iv (k + 1)).s.get 15).toNat ≡
        recurrence (stateAt key iv k).s + (if k < 32 then (roundWord (stateAt key iv k)).toNat else 0) [MOD 2 ^ 31 - 1] ∧
      stateAtReplacing key iv k = stateAt key iv k := by
  have hcells := stateAt_cells key iv k
  refine ⟨⟨stateAt_init key iv, fun len => zuc256Keystream_stateAt key iv len (Nat.le_add_right 33 k)⟩,
    fun i => ⟨(hcells i).1, Nat.le_sub_one_of_lt (hcells i).2⟩, ?_, ?_, ?_⟩
  · intro i
    rw [stateAt_s]
    exact shift_get _ _ i
  · have hlast : ∀ s16, (shift (stateAt key iv k).s s16).get 15 = s16 := fun _ => rfl
    have hfeedback := feedback_modEq hcells.fits
    rw [stateAt_s, hlast]
    split
    · exact (add31_modEq (feedback_lt _) (roundWord_lt _)).trans (Nat.ModEq.add_right _ hfeedback)
    · exact hfeedback
  · induction k with
    | zero => rfl
    | succ k ih =>
      rw [stateAtReplacing, ih (stateAt_cells key iv k), ← stateAt]
      exact replaceZero_of_cells hcells

/-! ## The loading -/

/-- The IVs of the two formats. -/
def IsIv (iv : Bytes) : Prop := iv.length = 16 ∨ (iv.length = 25 ∧ ∀ i, 17 ≤ i → i < 25 → (iv.getD i 0).toNat < 64)

/-- Two inputs that differ in byte 15 of an IV of 25 bytes and nowhere else. -/
def DifferAt15 (key : Vector UInt8 32) (iv : Bytes) (key' : Vector UInt8 32) (iv' : Bytes) : Prop :=
  iv.length = 25 ∧ key = key' ∧ iv ≠ iv' ∧ ∀ i, i ≠ 15 → iv.getD i 0 = iv'.getD i 0

/-- The bytes of a cell, the second one without its highest bit. -/
theorem load2_inj {a b c d a' b' c' d' : UInt8} (h : load2 a b c d = load2 a' b' c' d') :
    a = a' ∧ b.toNat % 2 ^ 7 = b'.toNat % 2 ^ 7 ∧ c = c' ∧ d = d' := by
  have hvalue := congrArg UInt32.toNat h
  rw [load2_value, load2_value] at hvalue
  have hc := c.toNat_lt
  have hd := d.toNat_lt
  have hc' := c'.toNat_lt
  have hd' := d'.toNat_lt
  refine ⟨UInt8.toNat_inj.mp ?_, ?_, UInt8.toNat_inj.mp ?_, UInt8.toNat_inj.mp ?_⟩ <;> omega

/-- IVs of one length whose bytes agree are equal. -/
theorem eq_of_getD {iv iv' : Bytes} (hlen : iv.length = iv'.length) (h : ∀ i < iv.length, iv.getD i 0 = iv'.getD i 0) : iv = iv' := by
  refine List.ext_getElem hlen ?_
  intro i hi hi'
  have heq := h i hi
  rwa [List.getD_eq_getElem _ _ hi, List.getD_eq_getElem _ _ hi'] at heq

/-- The cells for an IV of 16 bytes keep all bytes. -/
theorem loadState16_inj {key key' : Vector UInt8 32} {iv iv' : Bytes} (h : loadState16 key iv = loadState16 key' iv') :
    key = key' ∧ ∀ i < 16, iv.getD i 0 = iv'.getD i 0 := by
  have hcell : ∀ i : Fin 16, (loadState16 key iv).s.get i = (loadState16 key' iv').s.get i := fun i => by rw [h]
  obtain ⟨k0, -, k16, k24⟩ := load2_inj (hcell 0)
  obtain ⟨k1, -, k17, k25⟩ := load2_inj (hcell 1)
  obtain ⟨k2, -, k18, k26⟩ := load2_inj (hcell 2)
  obtain ⟨k3, -, k19, k27⟩ := load2_inj (hcell 3)
  obtain ⟨k4, -, k20, k28⟩ := load2_inj (hcell 4)
  obtain ⟨k5, -, k21, k29⟩ := load2_inj (hcell 5)
  obtain ⟨k6, -, k22, k30⟩ := load2_inj (hcell 6)
  obtain ⟨k7, -, v0, v8⟩ := load2_inj (hcell 7)
  obtain ⟨k8, -, v1, v9⟩ := load2_inj (hcell 8)
  obtain ⟨k9, -, v2, v10⟩ := load2_inj (hcell 9)
  obtain ⟨k10, -, v3, v11⟩ := load2_inj (hcell 10)
  obtain ⟨k11, -, v4, v12⟩ := load2_inj (hcell 11)
  obtain ⟨k12, -, v5, v13⟩ := load2_inj (hcell 12)
  obtain ⟨k13, -, v6, v14⟩ := load2_inj (hcell 13)
  obtain ⟨k14, -, v7, v15⟩ := load2_inj (hcell 14)
  obtain ⟨k15, -, k23, k31⟩ := load2_inj (hcell 15)
  constructor
  · refine Vector.ext ?_
    intro i hi
    interval_cases i
    exacts [k0, k1, k2, k3, k4, k5, k6, k7, k8, k9, k10, k11, k12, k13, k14, k15, k16, k17, k18, k19, k20, k21, k22, k23,
      k24, k25, k26, k27, k28, k29, k30, k31]
  · intro i hi
    interval_cases i
    exacts [v0, v1, v2, v3, v4, v5, v6, v7, v8, v9, v10, v11, v12, v13, v14, v15]

/-- What is put below a constant comes back out of it. -/
theorem or_inj {d x y : UInt8} (k : Nat) (hd : 2 ^ k ∣ d.toNat) (hk : d.toNat + 2 ^ k ≤ 2 ^ 7) (hx : x.toNat < 2 ^ k)
    (hy : y.toNat < 2 ^ k) (h : (d ||| x).toNat % 2 ^ 7 = (d ||| y).toNat % 2 ^ 7) : x = y := by
  have hor : ∀ {z : UInt8}, z.toNat < 2 ^ k → (d ||| z).toNat = d.toNat + z.toNat := by
    intro z hz
    obtain ⟨m, hm⟩ := hd
    rw [UInt8.toNat_or, hm]
    exact (Nat.two_pow_add_eq_or_of_lt hz m).symm
  rw [hor hx, hor hy, Nat.mod_eq_of_lt (by omega), Nat.mod_eq_of_lt (by omega)] at h
  exact UInt8.toNat_inj.mp (Nat.add_left_cancel h)

theorem and_low_toNat (v : UInt8) : (v &&& 0x3F).toNat = v.toNat % 2 ^ 6 ∧ (v &&& 0x0F).toNat = v.toNat % 2 ^ 4 := by
  rw [UInt8.toNat_and, UInt8.toNat_and]
  exact ⟨Nat.and_two_pow_sub_one_eq_mod _ 6, Nat.and_two_pow_sub_one_eq_mod _ 4⟩

/-- A byte of six bits comes back out of the constants of the longer IV. -/
theorem orDIv_inj {v v' : UInt8} (hv : v.toNat < 64) (hv' : v'.toNat < 64)
    (h : (orDIv 0x40 v).toNat % 2 ^ 7 = (orDIv 0x40 v').toNat % 2 ^ 7) : v = v' := by
  have hlow := (and_low_toNat v).1
  have hlow' := (and_low_toNat v').1
  have hsame := congrArg UInt8.toNat (or_inj 6 (by decide) (by decide) (by omega) (by omega) h)
  refine UInt8.toNat_inj.mp ?_
  omega

/-- A byte comes back out of its two halves. -/
theorem halves_inj {k k' : UInt8} (hhi : ((0x10 : UInt8) ||| ((k >>> 4) &&& 0x0F)).toNat % 2 ^ 7 =
      ((0x10 : UInt8) ||| ((k' >>> 4) &&& 0x0F)).toNat % 2 ^ 7)
    (hlo : ((0x30 : UInt8) ||| (k &&& 0x0F)).toNat % 2 ^ 7 = ((0x30 : UInt8) ||| (k' &&& 0x0F)).toNat % 2 ^ 7) : k = k' := by
  have hshift : ∀ z : UInt8, (z >>> 4).toNat = z.toNat / 2 ^ 4 := fun z => by
    rw [UInt8.toNat_shiftRight, Nat.shiftRight_eq_div_pow]
    rfl
  have hand : ∀ z : UInt8, (z &&& 0x0F).toNat = z.toNat % 2 ^ 4 := fun z => (and_low_toNat z).2
  have hlt : ∀ z : UInt8, (z &&& 0x0F).toNat < 2 ^ 4 := fun z => by
    rw [hand]
    exact Nat.mod_lt _ (by decide)
  have hhigh := congrArg UInt8.toNat (or_inj 4 (by decide) (by decide) (hlt _) (hlt _) hhi)
  have hlow := congrArg UInt8.toNat (or_inj 4 (by decide) (by decide) (hlt _) (hlt _) hlo)
  rw [hand, hand, hshift, hshift] at hhigh
  rw [hand, hand] at hlow
  have hk := k.toNat_lt
  have hk' := k'.toNat_lt
  refine UInt8.toNat_inj.mp ?_
  omega

/-- The cells for an IV of 25 bytes keep all bytes but one. -/
theorem loadState25_inj {key key' : Vector UInt8 32} {iv iv' : Bytes} (hiv : ∀ i, 17 ≤ i → i < 25 → (iv.getD i 0).toNat < 64)
    (hiv' : ∀ i, 17 ≤ i → i < 25 → (iv'.getD i 0).toNat < 64) (h : loadState25 key iv = loadState25 key' iv') :
    key = key' ∧ ∀ i < 25, i ≠ 15 → iv.getD i 0 = iv'.getD i 0 := by
  have hcell : ∀ i : Fin 16, (loadState25 key iv).s.get i = (loadState25 key' iv').s.get i := fun i => by rw [h]
  obtain ⟨k0, -, k21, k16⟩ := load2_inj (hcell 0)
  obtain ⟨k1, -, k22, k17⟩ := load2_inj (hcell 1)
  obtain ⟨k2, -, k23, k18⟩ := load2_inj (hcell 2)
  obtain ⟨k3, -, k24, k19⟩ := load2_inj (hcell 3)
  obtain ⟨k4, -, k25, k20⟩ := load2_inj (hcell 4)
  obtain ⟨v0, v17, k5, k26⟩ := load2_inj (hcell 5)
  obtain ⟨v1, v18, k6, k27⟩ := load2_inj (hcell 6)
  obtain ⟨v10, v19, k7, v2⟩ := load2_inj (hcell 7)
  obtain ⟨k8, v20, v3, v11⟩ := load2_inj (hcell 8)
  obtain ⟨k9, v21, v12, v4⟩ := load2_inj (hcell 9)
  obtain ⟨v5, v22, k10, k28⟩ := load2_inj (hcell 10)
  obtain ⟨k11, v23, v6, v13⟩ := load2_inj (hcell 11)
  obtain ⟨k12, v24, v7, v14⟩ := load2_inj (hcell 12)
  obtain ⟨k13, -, -, v8⟩ := load2_inj (hcell 13)
  obtain ⟨k14, hhi, v16, v9⟩ := load2_inj (hcell 14)
  obtain ⟨k15, hlo, k30, k29⟩ := load2_inj (hcell 15)
  have six : ∀ (i : Nat) (hi : 17 ≤ i ∧ i < 25),
      (orDIv 0x40 (iv.getD i 0)).toNat % 2 ^ 7 = (orDIv 0x40 (iv'.getD i 0)).toNat % 2 ^ 7 → iv.getD i 0 = iv'.getD i 0 :=
    fun i hi h => orDIv_inj (hiv i hi.1 hi.2) (hiv' i hi.1 hi.2) h
  constructor
  · refine Vector.ext ?_
    intro i hi
    interval_cases i
    exacts [k0, k1, k2, k3, k4, k5, k6, k7, k8, k9, k10, k11, k12, k13, k14, k15, k16, k17, k18, k19, k20, k21, k22, k23,
      k24, k25, k26, k27, k28, k29, k30, halves_inj hhi hlo]
  · intro i hi hne
    interval_cases i
    exacts [v0, v1, v2, v3, v4, v5, v6, v7, v8, v9, v10, v11, v12, v13, v14, absurd rfl hne, v16, six 17 (by decide) v17,
      six 18 (by decide) v18, six 19 (by decide) v19, six 20 (by decide) v20, six 21 (by decide) v21,
      six 22 (by decide) v22, six 23 (by decide) v23, six 24 (by decide) v24]

/-- The cells do not depend on byte 15 of an IV of 25 bytes. -/
theorem loadState25_congr (key : Vector UInt8 32) {iv iv' : Bytes} (h : ∀ i, i ≠ 15 → iv.getD i 0 = iv'.getD i 0) :
    loadState25 key iv = loadState25 key iv' := by
  simp (disch := decide) only [loadState25, h]

/-- Theorem 36 (loading). Two different inputs of one format load different cells if and only if they do not differ in byte 15 of an IV of
25 bytes alone. -/
theorem loaded_ne_iff {key key' : Vector UInt8 32} {iv iv' : Bytes} (hiv : IsIv iv) (hiv' : IsIv iv')
    (hlen : iv.length = iv'.length) :
    ((key, iv) ≠ (key', iv') → loaded key iv ≠ loaded key' iv') ↔ ¬DifferAt15 key iv key' iv' := by
  constructor
  · rintro hkeeps ⟨h25, rfl, hne, hsame⟩
    refine hkeeps (fun h => hne (congrArg Prod.snd h)) ?_
    rw [loaded, loaded, if_neg (by omega), if_neg (by omega)]
    exact loadState25_congr key hsame
  · intro hdiffer hne heq
    rw [loaded, loaded, ← hlen] at heq
    rcases hiv with h16 | ⟨h25, hsix⟩
    · rw [if_pos h16, if_pos h16] at heq
      obtain ⟨rfl, hbytes⟩ := loadState16_inj heq
      refine hne (congrArg (Prod.mk key) (eq_of_getD hlen ?_))
      rw [h16]
      exact hbytes
    · rw [if_neg (by omega), if_neg (by omega)] at heq
      rcases hiv' with h16' | ⟨-, hsix'⟩
      · omega
      · obtain ⟨rfl, hbytes⟩ := loadState25_inj hsix hsix' heq
        refine hdiffer ⟨h25, rfl, fun h => hne (congrArg (Prod.mk key) h), ?_⟩
        intro i hi
        rcases Nat.lt_or_ge i 25 with hlt | hge
        · exact hbytes i hlt hi
        · rw [List.getD_eq_default _ _ (by omega), List.getD_eq_default _ _ (by omega)]

/-- The key and the IV of zeros, and the IV with a one in byte 0. -/
theorem loaded_ne_iff_first :
    loaded (Vector.replicate 32 0) (List.replicate 25 0) ≠ loaded (Vector.replicate 32 0) (1 :: List.replicate 24 0) := by
  have hiv : IsIv (List.replicate 25 0) := Or.inr ⟨by decide, fun i hi hlt => by interval_cases i <;> decide⟩
  have hiv' : IsIv (1 :: List.replicate 24 0) := Or.inr ⟨by decide, fun i hi hlt => by interval_cases i <;> decide⟩
  refine (loaded_ne_iff hiv hiv' (by decide)).mpr ?_ (by decide)
  rintro ⟨-, -, -, hsame⟩
  exact absurd (hsame 0 (by decide)) (by decide)

/-- The IV with a one in byte 15 is loaded as the IV of zeros. -/
theorem byte15_lost : ¬∀ (key key' : Vector UInt8 32) (iv iv' : Bytes), IsIv iv → IsIv iv' → iv.length = iv'.length →
    (key, iv) ≠ (key', iv') → loaded key iv ≠ loaded key' iv' := by
  intro h
  have hiv : IsIv (List.replicate 25 0) := Or.inr ⟨by decide, fun i hi hlt => by interval_cases i <;> decide⟩
  have hiv' : IsIv ((List.replicate 25 0).set 15 1) := Or.inr ⟨by decide, fun i hi hlt => by interval_cases i <;> decide⟩
  exact h (Vector.replicate 32 0) (Vector.replicate 32 0) _ _ hiv hiv' (by decide) (by decide) (by decide)

end CZuc

end AuthVideo
