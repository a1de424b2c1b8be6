import AuthVideo.Cipher.ZucTest1
import AuthVideo.Lemmas.Rtp
import AuthVideo.Lib.Word32
import Mathlib.Data.Fintype.Basic
import Mathlib.Tactic.FinCases

/-!
# The board's cipher beside that of `test1.py`

`zuc256.c` works on words that wrap, `test1.py` on naturals that are masked. A context of the board whose cells have 31 bits
stands for a state of the script, and each operation of the one does to the numbers what the other does.
-/

namespace AuthVideo

open Word32

/-! ## The operations on words -/

/-- `rol32`, for a distance that is not a multiple of the width. -/
theorem rol32_toNat (x : UInt32) {n : UInt32} {k : Nat} (hn : n.toNat = k) (h0 : 0 < k) (hk : k < 32) :
    (CZuc.rol32 x n).toNat = Test1Zuc.rol32 x.toNat k := by
  have hsub : (32 - n).toNat = 32 - k := by
    rw [UInt32.toNat_sub_of_le _ _ (UInt32.le_iff_toNat_le.mpr (by rw [hn]; exact Nat.le_of_lt hk)), hn]
    rfl
  unfold CZuc.rol32 Test1Zuc.rol32
  rw [UInt32.toNat_or, toNat_shiftLeft hn hk, toNat_shiftRight hsub (by omega), toNat_and_mask]

/-- `L1`. -/
theorem L1_toNat (x : UInt32) : (CZuc.L1 x).toNat = Test1Zuc.L1 x.toNat := by
  unfold CZuc.L1 Test1Zuc.L1
  rw [UInt32.toNat_xor, UInt32.toNat_xor, UInt32.toNat_xor, UInt32.toNat_xor, rol32_toNat x rfl (by decide) (by decide),
    rol32_toNat x rfl (by decide) (by decide), rol32_toNat x rfl (by decide) (by decide),
    rol32_toNat x rfl (by decide) (by decide)]
  rfl

/-- `L2`. -/
theorem L2_toNat (x : UInt32) : (CZuc.L2 x).toNat = Test1Zuc.L2 x.toNat := by
  unfold CZuc.L2 Test1Zuc.L2
  rw [UInt32.toNat_xor, UInt32.toNat_xor, UInt32.toNat_xor, UInt32.toNat_xor, rol32_toNat x rfl (by decide) (by decide),
    rol32_toNat x rfl (by decide) (by decide), rol32_toNat x rfl (by decide) (by decide),
    rol32_toNat x rfl (by decide) (by decide)]
  rfl

/-- An entry of a table. -/
theorem entry_toNat (t : Array UInt8) (i : UInt32) : (CZuc.entry t i).toNat = PyZuc.entry t i.toNat :=
  UInt8.toNat_toUInt32 _

/-- `S_func`. The bytes stay where they are put, so nothing is cut. -/
theorem sFunc_toNat (x : UInt32) : (CZuc.sFunc x).toNat = PyZuc.sFunc x.toNat := by
  have hshift : ∀ (t : Array UInt8) (i : UInt32) {n : UInt32} {k : Nat}, n.toNat = k → k ≤ 24 →
      (CZuc.entry t i <<< n).toNat = PyZuc.entry t i.toNat <<< k := fun t i _ _ => toNat_byte_shiftLeft (t.getD i.toNat 0)
  unfold CZuc.sFunc PyZuc.sFunc
  rw [UInt32.toNat_or, UInt32.toNat_or, UInt32.toNat_or, entry_toNat, hshift s0 _ rfl (by decide),
    hshift s1 _ rfl (by decide), hshift s0 _ rfl (by decide)]
  rw [UInt32.toNat_and, UInt32.toNat_and, UInt32.toNat_and, UInt32.toNat_and, toNat_shiftRight (k := 8) rfl (by decide),
    toNat_shiftRight (k := 16) rfl (by decide), toNat_shiftRight (k := 24) rfl (by decide)]
  rfl

/-- `add31`, on cells. -/
theorem add31_toNat {a b : UInt32} (ha : a.toNat < 2 ^ 31) (hb : b.toNat < 2 ^ 31) :
    (CZuc.add31 a b).toNat = PyZuc.add31 a.toNat b.toNat := by
  have hsum : (a + b).toNat = a.toNat + b.toNat := by
    rw [toNat_add, and_mask_of_lt (by omega)]
  have hshr : (a.toNat + b.toNat) >>> 31 ≤ 1 := by
    rw [Nat.shiftRight_eq_div_pow]
    omega
  unfold CZuc.add31 PyZuc.add31
  rw [UInt32.toNat_and, toNat_add, toNat_shiftRight (k := 31) rfl (by decide), hsum]
  exact mask_and _ _ (by decide)

/-- `add31` gives a cell. -/
theorem add31_lt (a b : UInt32) : (CZuc.add31 a b).toNat < 2 ^ 31 := by
  unfold CZuc.add31
  rw [UInt32.toNat_and]
  exact Nat.lt_of_le_of_lt Nat.and_le_right (by decide)

/-- `mul31`. The script masks what the word has already lost. -/
theorem mul31_toNat (a : UInt32) {n : UInt32} {k : Nat} (hn : n.toNat = k) (hk : k < 31) :
    (CZuc.mul31 a n).toNat = PyZuc.mul31 a.toNat k := by
  have hsub : (31 - n).toNat = 31 - k := by
    rw [UInt32.toNat_sub_of_le _ _ (UInt32.le_iff_toNat_le.mpr (by rw [hn]; exact Nat.le_of_lt hk)), hn]
    rfl
  unfold CZuc.mul31 PyZuc.mul31
  rw [UInt32.toNat_and, UInt32.toNat_or, toNat_shiftLeft hn (by omega), toNat_shiftRight hsub (by omega),
    Nat.and_or_distrib_right, Nat.and_or_distrib_right, mask_and _ _ (UInt32.toNat_lt _)]
  rfl

/-- `mul31` gives a cell. -/
theorem mul31_lt (a n : UInt32) : (CZuc.mul31 a n).toNat < 2 ^ 31 := by
  unfold CZuc.mul31
  rw [UInt32.toNat_and]
  exact Nat.lt_of_le_of_lt Nat.and_le_right (by decide)

/-- `_load2`, on bytes. -/
theorem load2_toNat (a b c d : UInt8) : (CZuc.load2 a b c d).toNat = PyZuc.load2 a.toNat b.toNat c.toNat d.toNat := by
  unfold CZuc.load2 PyZuc.load2
  rw [UInt32.toNat_and, UInt32.toNat_or, UInt32.toNat_or, UInt32.toNat_or, toNat_shiftLeft (k := 23) rfl (by decide),
    toNat_shiftLeft (k := 16) rfl (by decide), toNat_shiftLeft (k := 8) rfl (by decide)]
  simp only [UInt8.toNat_toUInt32, UInt8.toNat_and, Nat.and_or_distrib_right]
  rw [mask_and _ _ (UInt32.toNat_lt _), mask_and _ _ (UInt32.toNat_lt _), mask_and _ _ (UInt32.toNat_lt _)]
  rfl

/-- `_load2` gives a cell. -/
theorem load2_lt (a b c d : UInt8) : (CZuc.load2 a b c d).toNat < 2 ^ 31 := by
  unfold CZuc.load2
  rw [UInt32.toNat_and]
  exact Nat.lt_of_le_of_lt Nat.and_le_right (by decide)

/-! ## The states -/

/-- The state of the script that a context of the board stands for. -/
def CZuc.Zuc256Ctx.toPy (ctx : CZuc.Zuc256Ctx) : PyZuc.State := ⟨ctx.s.map UInt32.toNat, ctx.R1.toNat, ctx.R2.toNat⟩

/-- The cells of a context have 31 bits. -/
def CZuc.Zuc256Ctx.Fits (ctx : CZuc.Zuc256Ctx) : Prop := ∀ i : Fin 16, (ctx.s.get i).toNat < 2 ^ 31

/-- A cell on both sides. -/
theorem toPy_s (ctx : CZuc.Zuc256Ctx) (i : Nat) (hi : i < 16) : ctx.toPy.s[i] = (ctx.s.get ⟨i, hi⟩).toNat :=
  Vector.getElem_map UInt32.toNat hi

/-- A half word put above another, cut out of shifted cells. -/
theorem high_toNat (a m : UInt32) {n : UInt32} {k : Nat} (hn : n.toNat = k) (hk : k < 32) :
    ((a <<< n) &&& m).toNat = (a.toNat <<< k) &&& m.toNat := by
  rw [UInt32.toNat_and, toNat_shiftLeft hn hk, mask_and _ _ m.toNat_lt]

/-- `_bit_reorg`. -/
theorem bitReorg_toPy (ctx : CZuc.Zuc256Ctx) :
    PyZuc.bitReorg ctx.toPy =
      ((CZuc.bitReorg ctx).1.toNat, (CZuc.bitReorg ctx).2.1.toNat, (CZuc.bitReorg ctx).2.2.1.toNat,
        (CZuc.bitReorg ctx).2.2.2.toNat) := by
  have hlow : ∀ a : UInt32, ((a >>> 15) &&& (0xFFFF : UInt32)).toNat = (a.toNat >>> 15) &&& 0xFFFF := by
    intro a
    rw [UInt32.toNat_and, toNat_shiftRight (k := 15) rfl (by decide)]
    rfl
  unfold PyZuc.bitReorg CZuc.bitReorg
  simp only [toPy_s, UInt32.toNat_or, hlow]
  rw [high_toNat _ _ (k := 1) rfl (by decide), high_toNat _ _ (k := 16) rfl (by decide),
    high_toNat _ _ (k := 16) rfl (by decide), high_toNat _ _ (k := 16) rfl (by decide), UInt32.toNat_and]
  rfl

/-- `_F`: the word it gives. -/
theorem F_word_toPy (ctx : CZuc.Zuc256Ctx) (x0 x1 x2 : UInt32) :
    (Test1Zuc.F ctx.toPy x0.toNat x1.toNat x2.toNat).1 = (CZuc.fFunc ctx x0 x1 x2).1.toNat := by
  unfold Test1Zuc.F CZuc.fFunc CZuc.Zuc256Ctx.toPy
  dsimp only
  rw [toNat_add, UInt32.toNat_xor, Nat.and_assoc, Nat.and_self]

/-- A word put together of the half words of two. -/
theorem halves_toNat (a b : UInt32) :
    ((a <<< 16) ||| (b >>> 16)).toNat = ((a.toNat <<< 16) ||| (b.toNat >>> 16)) &&& 0xFFFFFFFF := by
  rw [UInt32.toNat_or, toNat_shiftLeft (k := 16) rfl (by decide), toNat_shiftRight (k := 16) rfl (by decide),
    Nat.and_or_distrib_right, and_mask_of_lt (x := b.toNat >>> 16)]
  exact Nat.lt_of_le_of_lt (Nat.shiftRight_le _ _) b.toNat_lt

/-- `_F`: the registers it leaves. -/
theorem F_state_toPy (ctx : CZuc.Zuc256Ctx) (x0 x1 x2 : UInt32) :
    (Test1Zuc.F ctx.toPy x0.toNat x1.toNat x2.toNat).2 = (CZuc.fFunc ctx x0 x1 x2).2.toPy := by
  have h1 : (ctx.R1.toNat + x1.toNat) &&& 0xFFFFFFFF = (ctx.R1 + x1).toNat := (toNat_add _ _).symm
  have h2 : (ctx.R2.toNat ^^^ x2.toNat) &&& 0xFFFFFFFF = (ctx.R2 ^^^ x2).toNat := by
    rw [← UInt32.toNat_xor, toNat_and_mask]
  unfold Test1Zuc.F CZuc.fFunc CZuc.Zuc256Ctx.toPy
  dsimp only
  rw [h1, h2, ← halves_toNat, ← halves_toNat, ← L1_toNat, ← L2_toNat, ← sFunc_toNat, ← sFunc_toNat]

/-- The sum of both feedbacks. -/
theorem feedback_toPy {ctx : CZuc.Zuc256Ctx} (h : ctx.Fits) : PyZuc.feedback ctx.toPy.s = (CZuc.feedback ctx.s).toNat := by
  unfold PyZuc.feedback CZuc.feedback
  simp only [toPy_s]
  rw [add31_toNat (add31_lt _ _) (mul31_lt _ _), add31_toNat (add31_lt _ _) (mul31_lt _ _),
    add31_toNat (add31_lt _ _) (mul31_lt _ _), add31_toNat (add31_lt _ _) (mul31_lt _ _),
    add31_toNat (h 0) (mul31_lt _ _), mul31_toNat _ (k := 8) rfl (by decide), mul31_toNat _ (k := 20) rfl (by decide),
    mul31_toNat _ (k := 21) rfl (by decide), mul31_toNat _ (k := 17) rfl (by decide),
    mul31_toNat _ (k := 15) rfl (by decide)]
  rfl

/-- The feedback is a cell. -/
theorem feedback_lt (s : Vector UInt32 16) : (CZuc.feedback s).toNat < 2 ^ 31 := add31_lt _ _

/-- The shift, on both sides. -/
theorem shift_toPy (ctx : CZuc.Zuc256Ctx) (s16 : UInt32) :
    PyZuc.shift ctx.toPy.s s16.toNat = (CZuc.shift ctx.s s16).map UInt32.toNat := by
  unfold PyZuc.shift CZuc.shift
  simp only [toPy_s, Vector.map_mk, List.map_toArray, List.map_cons, List.map_nil]
  rfl

/-- The shift keeps cells and takes in a new one. -/
theorem shift_fits {ctx : CZuc.Zuc256Ctx} (h : ctx.Fits) {s16 : UInt32} (hs : s16.toNat < 2 ^ 31) :
    ∀ i : Fin 16, ((CZuc.shift ctx.s s16).get i).toNat < 2 ^ 31 := by
  intro i
  fin_cases i
  exacts [h 1, h 2, h 3, h 4, h 5, h 6, h 7, h 8, h 9, h 10, h 11, h 12, h 13, h 14, h 15, hs]

/-- `_lfsr_init`. -/
theorem lfsrInit_toPy {ctx : CZuc.Zuc256Ctx} (h : ctx.Fits) {u : UInt32} (hu : u.toNat < 2 ^ 31) :
    PyZuc.lfsrInit ctx.toPy u.toNat = (CZuc.lfsrInit ctx u).toPy ∧ (CZuc.lfsrInit ctx u).Fits := by
  refine ⟨?_, shift_fits h (add31_lt _ _)⟩
  unfold PyZuc.lfsrInit CZuc.lfsrInit
  rw [feedback_toPy h, ← add31_toNat (feedback_lt _) hu, shift_toPy]
  rfl

/-- `_lfsr_work`. -/
theorem lfsrWork_toPy {ctx : CZuc.Zuc256Ctx} (h : ctx.Fits) :
    PyZuc.lfsrWork ctx.toPy = (CZuc.lfsrWork ctx).toPy ∧ (CZuc.lfsrWork ctx).Fits := by
  refine ⟨?_, shift_fits h (feedback_lt _)⟩
  unfold PyZuc.lfsrWork CZuc.lfsrWork
  rw [feedback_toPy h, shift_toPy]
  rfl

/-- `F_func` leaves the cells alone. -/
theorem fFunc_fits {ctx : CZuc.Zuc256Ctx} (h : ctx.Fits) (x0 x1 x2 : UInt32) : (CZuc.fFunc ctx x0 x1 x2).2.Fits := h

/-- A round of the initialisation. -/
theorem initRound_toPy {ctx : CZuc.Zuc256Ctx} (h : ctx.Fits) :
    Test1Zuc.initRound ctx.toPy = (CZuc.initRound ctx).toPy ∧ (CZuc.initRound ctx).Fits := by
  have hword : ∀ w : UInt32, (w.toNat >>> 1) &&& 0x7FFFFFFF = ((w >>> 1) &&& CZuc.P31).toNat := by
    intro w
    rw [UInt32.toNat_and, toNat_shiftRight (k := 1) rfl (by decide)]
    rfl
  have hlt : ∀ w : UInt32, ((w >>> 1) &&& CZuc.P31).toNat < 2 ^ 31 := by
    intro w
    rw [← hword]
    exact Nat.lt_of_le_of_lt Nat.and_le_right (by decide)
  unfold Test1Zuc.initRound CZuc.initRound
  rw [bitReorg_toPy]
  dsimp only
  rw [F_word_toPy, F_state_toPy, hword]
  exact lfsrInit_toPy (fFunc_fits h _ _ _) (hlt _)

/-- The rounds of the initialisation. -/
theorem rounds_toPy (l : List Nat) {ctx : CZuc.Zuc256Ctx} (h : ctx.Fits) :
    l.foldl (fun z _ => Test1Zuc.initRound z) ctx.toPy = (l.foldl (fun c _ => CZuc.initRound c) ctx).toPy ∧
      (l.foldl (fun c _ => CZuc.initRound c) ctx).Fits := by
  induction l generalizing ctx with
  | nil => exact ⟨rfl, h⟩
  | cons i l ih =>
    obtain ⟨hround, hfits⟩ := initRound_toPy h
    rw [List.foldl_cons, List.foldl_cons, hround]
    exact ih hfits

/-! ## The initialisation -/

/-- A byte of the key, on both sides. -/
theorem byteAt_key (key : Vector UInt8 32) (i : Nat) (hi : i < 32) : PyZuc.byteAt key.toList i = key[i].toNat := by
  unfold PyZuc.byteAt
  rw [List.getD_eq_getElem _ _ (by rw [Vector.length_toList]; exact hi), Vector.getElem_toList]

/-- `or_d_iv`. -/
theorem orDIv_toNat (d v : UInt8) : (CZuc.orDIv d v).toNat = Test1Zuc.orDIv d.toNat v.toNat := by
  unfold CZuc.orDIv Test1Zuc.orDIv
  rw [UInt8.toNat_or, UInt8.toNat_and]
  rfl

/-- The cells for an IV of 16 bytes. -/
theorem loadState16_toPy (key : Vector UInt8 32) (iv : Bytes) :
    PyZuc.loadState key.toList iv = (CZuc.loadState16 key iv).toPy := by
  unfold PyZuc.loadState CZuc.loadState16 CZuc.Zuc256Ctx.toPy
  simp only [Vector.map_mk, List.map_toArray, List.map_cons, List.map_nil, load2_toNat, byteAt_key, Nat.reduceLT]
  rfl

/-- They are cells. -/
theorem loadState16_fits (key : Vector UInt8 32) (iv : Bytes) : (CZuc.loadState16 key iv).Fits := by
  intro i
  fin_cases i <;> exact load2_lt _ _ _ _

/-- The cells for an IV of 25 bytes. -/
theorem loadState25_toPy (key : Vector UInt8 32) (iv : Bytes) :
    Test1Zuc.loadState25 key.toList iv = (CZuc.loadState25 key iv).toPy := by
  unfold Test1Zuc.loadState25 CZuc.loadState25 CZuc.Zuc256Ctx.toPy
  simp only [Vector.map_mk, List.map_toArray, List.map_cons, List.map_nil, load2_toNat, orDIv_toNat, byteAt_key,
    UInt8.toNat_or, UInt8.toNat_and, UInt8.toNat_shiftRight, Nat.reduceLT]
  rfl

/-- They are cells. -/
theorem loadState25_fits (key : Vector UInt8 32) (iv : Bytes) : (CZuc.loadState25 key iv).Fits := by
  intro i
  fin_cases i <;> exact load2_lt _ _ _ _

/-- `_init_state`. -/
theorem initState_toPy (key : Vector UInt8 32) (iv : Bytes) :
    Test1Zuc.initState key.toList iv = (CZuc.zuc256InitState key iv).toPy ∧ (CZuc.zuc256InitState key iv).Fits := by
  have hload : (if iv.length = 16 then PyZuc.loadState key.toList iv else Test1Zuc.loadState25 key.toList iv) =
        (if iv.length = 16 then CZuc.loadState16 key iv else CZuc.loadState25 key iv).toPy ∧
      (if iv.length = 16 then CZuc.loadState16 key iv else CZuc.loadState25 key iv).Fits := by
    split
    · exact ⟨loadState16_toPy key iv, loadState16_fits key iv⟩
    · exact ⟨loadState25_toPy key iv, loadState25_fits key iv⟩
  obtain ⟨hrounds, hfits⟩ := rounds_toPy (List.range 32) hload.2
  unfold Test1Zuc.initState CZuc.zuc256InitState
  rw [hload.1]
  dsimp only
  rw [hrounds, bitReorg_toPy]
  dsimp only
  rw [F_state_toPy]
  exact lfsrWork_toPy (fFunc_fits hfits _ _ _)

/-! ## The keystream -/

/-- `keystream_word`. -/
theorem keystreamWord_toPy {ctx : CZuc.Zuc256Ctx} (h : ctx.Fits) :
    Test1Zuc.keystreamWord ctx.toPy =
        ((CZuc.zuc256KeystreamWord ctx).1.toNat, (CZuc.zuc256KeystreamWord ctx).2.toPy) ∧
      (CZuc.zuc256KeystreamWord ctx).2.Fits := by
  have hwork := fun c (hc : CZuc.Zuc256Ctx.Fits c) => lfsrWork_toPy hc
  unfold Test1Zuc.keystreamWord CZuc.zuc256KeystreamWord
  rw [bitReorg_toPy]
  dsimp only
  rw [F_word_toPy, F_state_toPy, ← UInt32.toNat_xor, toNat_and_mask, (hwork _ (fFunc_fits h _ _ _)).1]
  exact ⟨rfl, (hwork _ (fFunc_fits h _ _ _)).2⟩

/-- The bytes of a word. -/
theorem toBytes4_toNat (w : UInt32) : PyZuc.toBytes4 w.toNat = CZuc.wordBytes w := by
  have hbyte : ∀ v : UInt32, UInt8.ofNat v.toNat = v.toUInt8 := fun v => rfl
  unfold PyZuc.toBytes4 CZuc.wordBytes
  rw [← hbyte, ← hbyte, ← hbyte, ← hbyte, toNat_shiftRight (k := 24) rfl (by decide),
    toNat_shiftRight (k := 16) rfl (by decide), toNat_shiftRight (k := 8) rfl (by decide)]

/-- A turn of the loop of `keystream_bytes`, for a call that is cut at its end. -/
theorem keystreamBytes_of_pos (z : PyZuc.State) {len : Nat} (hpos : 0 < len) :
    Test1Zuc.keystreamBytes z len =
      ((PyZuc.toBytes4 (Test1Zuc.keystreamWord z).1).take len ++
          (Test1Zuc.keystreamBytes (Test1Zuc.keystreamWord z).2 (len - 4)).1,
        (Test1Zuc.keystreamBytes (Test1Zuc.keystreamWord z).2 (len - 4)).2) := by
  have hwords : (len + 3) / 4 = (len - 4 + 3) / 4 + 1 := by omega
  unfold Test1Zuc.keystreamBytes
  rw [hwords, Test1Zuc.keystreamWords]
  dsimp only
  rw [List.take_append]
  rfl

/-- One call. The loop of the board copies the last word in part, the script cuts the whole. -/
theorem keystreamBytes_toPy {ctx : CZuc.Zuc256Ctx} (h : ctx.Fits) (len : Nat) :
    Test1Zuc.keystreamBytes ctx.toPy len =
        ((CZuc.zuc256Keystream ctx len).1, (CZuc.zuc256Keystream ctx len).2.toPy) ∧
      (CZuc.zuc256Keystream ctx len).2.Fits := by
  induction len using Nat.strong_induction_on generalizing ctx with
  | h len ih =>
    rcases Nat.eq_zero_or_pos len with rfl | hpos
    · rw [zuc256Keystream_zero]
      exact ⟨rfl, h⟩
    · obtain ⟨hword, hfits⟩ := keystreamWord_toPy h
      obtain ⟨hrest, hend⟩ := ih (len - 4) (by omega) hfits
      rw [keystreamBytes_of_pos _ hpos, zuc256Keystream_of_pos hpos, hword]
      dsimp only
      rw [toBytes4_toNat, hrest]
      exact ⟨rfl, hend⟩

end AuthVideo
