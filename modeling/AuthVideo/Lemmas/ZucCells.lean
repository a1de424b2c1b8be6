import AuthVideo.Lemmas.ZucAgree
import AuthVideo.Lib.Mersenne

/-!
# The cells of the shift register

`add31` is the sum with an end-around carry and `mul31` a rotation, so the cells are words of 31 bits that are not zero and the
feedback is the linear recurrence modulo `2 ^ 31 - 1`.
-/

namespace AuthVideo

namespace CZuc

/-! ## The operations -/

/-- A word of 31 bits that is not zero. -/
abbrev Cell (x : UInt32) : Prop := Mersenne.Rep 31 x.toNat

/-- `add31`, on words of 31 bits. -/
theorem add31_eq {a b : UInt32} (ha : a.toNat < 2 ^ 31) (hb : b.toNat < 2 ^ 31) :
    (add31 a b).toNat = Mersenne.add 31 a.toNat b.toNat := by
  rw [add31_toNat ha hb, PyZuc.add31, PyZuc.P31, Nat.shiftRight_eq_div_pow, Mersenne.add]
  simp only [Word32.and_mask31]
  split
  · omega
  · omega

/-- `mul31`, on a word of 31 bits. The stray bits above the cut are the ones that come in below. -/
theorem mul31_eq {a n : UInt32} {k : Nat} (hn : n.toNat = k) (hk : k < 31) (ha : a.toNat < 2 ^ 31) :
    (mul31 a n).toNat = Mersenne.rotate 31 k a.toNat := by
  have hpow : 2 ^ 31 = 2 ^ k * 2 ^ (31 - k) := by
    rw [← Nat.pow_add]
    congr 1
    omega
  have hpow' : 2 ^ (31 - k) * 2 ^ k = 2 ^ 31 := by rw [hpow, Nat.mul_comm]
  have hhigh : a.toNat / 2 ^ (31 - k) < 2 ^ k := by
    rw [Nat.div_lt_iff_lt_mul (Nat.two_pow_pos _), ← hpow]
    exact ha
  have hfit : a.toNat / 2 ^ (31 - k) < 2 ^ 31 := Nat.lt_of_lt_of_le hhigh (Nat.pow_le_pow_right (by decide) (by omega))
  have hlow : a.toNat * 2 ^ k % 2 ^ 31 = a.toNat % 2 ^ (31 - k) * 2 ^ k := by
    rw [← hpow', Nat.mul_mod_mul_right]
  rw [mul31_toNat a hn hk, PyZuc.mul31, PyZuc.P31, Nat.and_or_distrib_right, Word32.and_mask31, Word32.and_mask31, Nat.shiftLeft_eq,
    Nat.shiftRight_eq_div_pow, hlow, Nat.mod_eq_of_lt hfit, Mersenne.rotate, ← Nat.shiftLeft_eq,
    Nat.shiftLeft_add_eq_or_of_lt hhigh]

theorem add31_cell {a b : UInt32} (ha : Cell a) (hb : b.toNat < 2 ^ 31) : Cell (add31 a b) := by
  rw [Cell, add31_eq ha.2 hb]
  exact Mersenne.add_rep ha hb

theorem add31_modEq {a b : UInt32} (ha : a.toNat < 2 ^ 31) (hb : b.toNat < 2 ^ 31) :
    (add31 a b).toNat ≡ a.toNat + b.toNat [MOD 2 ^ 31 - 1] := by
  rw [add31_eq ha hb]
  exact Mersenne.add_modEq 31 _ _

theorem mul31_modEq {a n : UInt32} {k : Nat} (hn : n.toNat = k) (hk : k < 31) (ha : a.toNat < 2 ^ 31) :
    (mul31 a n).toNat ≡ 2 ^ k * a.toNat [MOD 2 ^ 31 - 1] := by
  rw [mul31_eq hn hk ha]
  exact Mersenne.rotate_modEq (Nat.le_of_lt hk) _

/-- `load2` puts its bytes side by side; the second one has 7 bits. -/
theorem load2_value (a b c d : UInt8) :
    (load2 a b c d).toNat = a.toNat * 2 ^ 23 + b.toNat % 2 ^ 7 * 2 ^ 16 + c.toNat * 2 ^ 8 + d.toNat := by
  have hor : ∀ {x y : Nat} (k : Nat), y < 2 ^ k → x <<< k ||| y = x * 2 ^ k + y := fun k h => by
    rw [← Nat.shiftLeft_add_eq_or_of_lt h, Nat.shiftLeft_eq]
  have hseven : ∀ x : Nat, x &&& 0x7F = x % 2 ^ 7 := fun x => Nat.and_two_pow_sub_one_eq_mod x 7
  have ha := a.toNat_lt
  have hc := c.toNat_lt
  have hd := d.toNat_lt
  have hb : b.toNat % 2 ^ 7 < 2 ^ 7 := Nat.mod_lt _ (by decide)
  have htop : a.toNat <<< 23 ||| (b.toNat % 2 ^ 7) <<< 16 = (a.toNat * 2 ^ 7 + b.toNat % 2 ^ 7) <<< 16 := by
    rw [hor 23 (by rw [Nat.shiftLeft_eq]; omega), Nat.shiftLeft_eq, Nat.shiftLeft_eq]
    ring
  have hmid : (a.toNat * 2 ^ 7 + b.toNat % 2 ^ 7) <<< 16 ||| c.toNat <<< 8 =
      ((a.toNat * 2 ^ 7 + b.toNat % 2 ^ 7) * 2 ^ 8 + c.toNat) <<< 8 := by
    rw [hor 16 (by rw [Nat.shiftLeft_eq]; omega), Nat.shiftLeft_eq, Nat.shiftLeft_eq]
    ring
  rw [load2_toNat, PyZuc.load2, Word32.and_mask31, hseven, htop, hmid, hor 8 hd, Nat.mod_eq_of_lt (by omega)]
  ring

/-- A constant that is not zero makes a cell. -/
theorem load2_cell {a b c d : UInt8} (hb : b.toNat % 2 ^ 7 ≠ 0) : Cell (load2 a b c d) := by
  refine ⟨?_, load2_lt a b c d⟩
  rw [load2_value]
  omega

/-! ## The register -/

/-- Every cell is a word of 31 bits that is not zero. -/
def Zuc256Ctx.Cells (ctx : Zuc256Ctx) : Prop := ∀ i : Fin 16, Cell (ctx.s.get i)

/-- The recurrence. -/
def recurrence (s : Vector UInt32 16) : Nat :=
  2 ^ 15 * s[15]!.toNat + 2 ^ 17 * s[13]!.toNat + 2 ^ 21 * s[10]!.toNat + 2 ^ 20 * s[4]!.toNat + (1 + 2 ^ 8) * s[0]!.toNat

theorem recurrence_eq (s : Vector UInt32 16) : recurrence s =
    2 ^ 15 * (s.get 15).toNat + 2 ^ 17 * (s.get 13).toNat + 2 ^ 21 * (s.get 10).toNat + 2 ^ 20 * (s.get 4).toNat +
      (1 + 2 ^ 8) * (s.get 0).toNat := rfl

/-- The feedback is the recurrence. -/
theorem feedback_modEq {ctx : Zuc256Ctx} (h : ctx.Fits) : (feedback ctx.s).toNat ≡ recurrence ctx.s [MOD 2 ^ 31 - 1] := by
  have h0 := mul31_modEq (n := 8) (k := 8) rfl (by decide) (h 0)
  have h4 := mul31_modEq (n := 20) (k := 20) rfl (by decide) (h 4)
  have h10 := mul31_modEq (n := 21) (k := 21) rfl (by decide) (h 10)
  have h13 := mul31_modEq (n := 17) (k := 17) rfl (by decide) (h 13)
  have h15 := mul31_modEq (n := 15) (k := 15) rfl (by decide) (h 15)
  have hsum0 := (add31_modEq (h 0) (mul31_lt (ctx.s.get 0) 8)).trans (Nat.ModEq.add_left _ h0)
  have hsum4 := (add31_modEq (add31_lt _ _) (mul31_lt (ctx.s.get 4) 20)).trans (Nat.ModEq.add hsum0 h4)
  have hsum10 := (add31_modEq (add31_lt _ _) (mul31_lt (ctx.s.get 10) 21)).trans (Nat.ModEq.add hsum4 h10)
  have hsum13 := (add31_modEq (add31_lt _ _) (mul31_lt (ctx.s.get 13) 17)).trans (Nat.ModEq.add hsum10 h13)
  have hsum15 := (add31_modEq (add31_lt _ _) (mul31_lt (ctx.s.get 15) 15)).trans (Nat.ModEq.add hsum13 h15)
  have hterms : (ctx.s.get 0).toNat + 2 ^ 8 * (ctx.s.get 0).toNat + 2 ^ 20 * (ctx.s.get 4).toNat +
      2 ^ 21 * (ctx.s.get 10).toNat + 2 ^ 17 * (ctx.s.get 13).toNat + 2 ^ 15 * (ctx.s.get 15).toNat = recurrence ctx.s := by
    rw [recurrence_eq]
    ring
  rw [← hterms]
  exact hsum15

theorem Zuc256Ctx.Cells.fits {ctx : Zuc256Ctx} (h : ctx.Cells) : ctx.Fits := fun i => (h i).2

/-- The feedback of cells is a cell. -/
theorem feedback_cell {ctx : Zuc256Ctx} (h : ctx.Cells) : Cell (feedback ctx.s) :=
  add31_cell (add31_cell (add31_cell (add31_cell (add31_cell (h 0) (mul31_lt _ _)) (mul31_lt _ _)) (mul31_lt _ _))
    (mul31_lt _ _)) (mul31_lt _ _)

/-- The shift keeps cells and takes in a new one. -/
theorem shift_cells {ctx : Zuc256Ctx} (h : ctx.Cells) {s16 : UInt32} (hs : Cell s16) :
    ∀ i : Fin 16, Cell ((shift ctx.s s16).get i) := by
  intro i
  fin_cases i
  exacts [h 1, h 2, h 3, h 4, h 5, h 6, h 7, h 8, h 9, h 10, h 11, h 12, h 13, h 14, h 15, hs]

/-! ## The loading -/

/-- What is put into a constant leaves it other than zero. -/
theorem or_ne_zero {d : UInt8} (v : UInt8) (hd : d.toNat % 2 ^ 7 ≠ 0) : (d ||| v).toNat % 2 ^ 7 ≠ 0 := by
  have hle : d.toNat % 2 ^ 7 ≤ d.toNat % 2 ^ 7 ||| v.toNat % 2 ^ 7 := Nat.left_le_or
  rw [UInt8.toNat_or, Nat.or_mod_two_pow]
  omega

theorem loadState16_cells (key : Vector UInt8 32) (iv : Bytes) : (loadState16 key iv).Cells := by
  intro i
  fin_cases i <;> exact load2_cell (by decide)

theorem loadState25_cells (key : Vector UInt8 32) (iv : Bytes) : (loadState25 key iv).Cells := by
  have hplain : ∀ {a b c d : UInt8}, b.toNat % 2 ^ 7 ≠ 0 → Cell (load2 a b c d) := load2_cell
  have hjoined : ∀ {a b v c d : UInt8}, b.toNat % 2 ^ 7 ≠ 0 → Cell (load2 a (b ||| v) c d) := fun h =>
    load2_cell (or_ne_zero _ h)
  intro i
  fin_cases i
  exacts [hplain (by decide), hplain (by decide), hplain (by decide), hplain (by decide), hplain (by decide), hjoined (by decide),
    hjoined (by decide), hjoined (by decide), hjoined (by decide), hjoined (by decide), hjoined (by decide), hjoined (by decide),
    hjoined (by decide), hplain (by decide), hjoined (by decide), hjoined (by decide)]

/-! ## The steps -/

/-- The shift moves every cell but the last one down. -/
theorem shift_get (s : Vector UInt32 16) (s16 : UInt32) (i : Fin 15) : (shift s s16).get i.castSucc = s.get i.succ := by
  fin_cases i <;> rfl

/-- What the initialisation adds to the feedback. -/
def roundWord (ctx : Zuc256Ctx) : UInt32 :=
  ((fFunc ctx (bitReorg ctx).1 (bitReorg ctx).2.1 (bitReorg ctx).2.2.1).1 >>> 1) &&& P31

theorem roundWord_lt (ctx : Zuc256Ctx) : (roundWord ctx).toNat < 2 ^ 31 := by
  rw [roundWord, UInt32.toNat_and]
  exact Nat.lt_of_le_of_lt Nat.and_le_right (by decide)

/-- The cells after a round of the initialisation. -/
theorem initRound_s (ctx : Zuc256Ctx) : (initRound ctx).s = shift ctx.s (add31 (feedback ctx.s) (roundWord ctx)) := rfl

/-- The cells after a word of the keystream. -/
theorem keystreamWord_s (ctx : Zuc256Ctx) : (zuc256KeystreamWord ctx).2.s = shift ctx.s (feedback ctx.s) := rfl

theorem initRound_cells {ctx : Zuc256Ctx} (h : ctx.Cells) : (initRound ctx).Cells :=
  shift_cells h (add31_cell (feedback_cell h) (roundWord_lt ctx))

theorem keystreamWord_cells {ctx : Zuc256Ctx} (h : ctx.Cells) : (zuc256KeystreamWord ctx).2.Cells :=
  shift_cells h (feedback_cell h)

end CZuc

end AuthVideo
