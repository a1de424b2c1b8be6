import AuthVideo.Cipher.Sm3Py
import AuthVideo.Lib.Word32
import Mathlib.Data.Nat.ModEq

/-!
# The board's SM3 beside that of the comparison script

`SM3.c` takes one byte at a time into a buffer and works on words that wrap; `sm3_hash` pads the whole message and works on
masked naturals. Both compress the same blocks to the same words.
-/

namespace AuthVideo

open Word32

variable (M : Shr32)

/-! ## The operations on words -/

/-- `_rotl`, for every distance. Where it is a multiple of 32 the open shift does not matter. -/
theorem rotl_toNat (x : UInt32) (n : Nat) : (CSm3.ROTL M x n).toNat = PySm3.rotl x.toNat n := by
  have hn : n &&& 31 = n % 32 := Nat.and_two_pow_sub_one_eq_mod n 5
  have hmask : x &&& 0xFFFFFFFF = x := by
    rw [← UInt32.toNat_inj, UInt32.toNat_and]
    exact toNat_and_mask x
  have hlt : n % 32 < 32 := Nat.mod_lt n (by decide)
  unfold CSm3.ROTL CSm3.SHL PySm3.rotl
  dsimp only
  rw [hn, hmask]
  rcases Nat.eq_zero_or_pos (n % 32) with h0 | hpos
  · have hrest : x.toNat >>> 32 = 0 := by
      rw [Nat.shiftRight_eq_div_pow]
      exact Nat.div_eq_of_lt x.toNat_lt
    have hor : x ||| CSm3.shr M x 32 = x := by
      rw [CSm3.shr, if_pos rfl]
      rcases M.shr_eq x with h | h <;> rw [h] <;> simp
    rw [h0, Nat.sub_zero, hrest]
    simpa using congrArg UInt32.toNat hor
  · have hright : (UInt32.ofNat (32 - n % 32)).toNat = 32 - n % 32 := Nat.mod_eq_of_lt (by omega)
    have hleft : (UInt32.ofNat (n % 32)).toNat = n % 32 := Nat.mod_eq_of_lt (by omega)
    rw [CSm3.shr, if_neg (by omega), UInt32.toNat_or, toNat_shiftLeft hleft hlt, toNat_shiftRight hright (by omega)]

/-- `_P0`. -/
theorem P0_toNat (x : UInt32) : (CSm3.P0 M x).toNat = PySm3.P0 x.toNat := by
  rw [CSm3.P0, UInt32.toNat_xor, UInt32.toNat_xor, rotl_toNat, rotl_toNat]
  rfl

/-- `_P1`. -/
theorem P1_toNat (x : UInt32) : (CSm3.P1 M x).toNat = PySm3.P1 x.toNat := by
  rw [CSm3.P1, UInt32.toNat_xor, UInt32.toNat_xor, rotl_toNat, rotl_toNat]
  rfl

/-- A sum of four words wraps at the end as it does on the way. -/
theorem toNat_add4 (a b c d : UInt32) : (a + b + c + d).toNat = (a.toNat + b.toNat + c.toNat + d.toNat) &&& 0xFFFFFFFF := by
  rw [and_mask]
  simp only [UInt32.toNat_add, Nat.mod_add_mod]

/-- A sum of three. -/
theorem toNat_add3 (a b c : UInt32) : (a + b + c).toNat = (a.toNat + b.toNat + c.toNat) &&& 0xFFFFFFFF := by
  rw [and_mask]
  simp only [UInt32.toNat_add, Nat.mod_add_mod]

/-- A word of a list, on both sides. -/
theorem getD_toNat (W : List UInt32) (i : Nat) : (W.map UInt32.toNat).getD i 0 = (W.getD i 0).toNat :=
  List.getD_map W 0 UInt32.toNat

/-! ## One block -/

/-- A turn of the loop over the registers. -/
theorem round_toNat (W W1 : List UInt32) (r : Words8 UInt32) (j : Nat) :
    PySm3.round (W.map UInt32.toNat) (W1.map UInt32.toNat) (r.map UInt32.toNat) j =
      (CSm3.round M W W1 r j).map UInt32.toNat := by
  have hT : (if j < 16 then 0x79cc4519 else 0x7a879d8a) = (if j < 16 then CSm3.T0 else CSm3.T1).toNat := by
    split <;> rfl
  have hSS1 : PySm3.rotl ((PySm3.rotl r.A.toNat 12 + r.E.toNat +
        PySm3.rotl (if j < 16 then 0x79cc4519 else 0x7a879d8a) j) &&& 0xFFFFFFFF) 7 =
      (CSm3.ROTL M (CSm3.ROTL M r.A 12 + r.E + CSm3.ROTL M (if j < 16 then CSm3.T0 else CSm3.T1) j) 7).toNat := by
    rw [rotl_toNat, toNat_add3, rotl_toNat, rotl_toNat, hT]
  have hFF : (if j < 16 then r.A.toNat ^^^ r.B.toNat ^^^ r.C.toNat
        else (r.A.toNat &&& r.B.toNat) ||| (r.A.toNat &&& r.C.toNat) ||| (r.B.toNat &&& r.C.toNat)) =
      (if j < 16 then CSm3.FF0 r.A r.B r.C else CSm3.FF1 r.A r.B r.C).toNat := by
    split
    · rw [CSm3.FF0, UInt32.toNat_xor, UInt32.toNat_xor]
    · rw [CSm3.FF1, UInt32.toNat_or, UInt32.toNat_or, UInt32.toNat_and, UInt32.toNat_and, UInt32.toNat_and]
  have hGG : (if j < 16 then r.E.toNat ^^^ r.F.toNat ^^^ r.G.toNat
        else (r.E.toNat &&& r.F.toNat) ||| Nat.ldiff r.G.toNat r.E.toNat) =
      (if j < 16 then CSm3.GG0 r.E r.F r.G else CSm3.GG1 r.E r.F r.G).toNat := by
    split
    · rw [CSm3.GG0, UInt32.toNat_xor, UInt32.toNat_xor]
    · rw [CSm3.GG1, UInt32.toNat_or, UInt32.toNat_and, toNat_not_and]
  unfold PySm3.round CSm3.round Words8.map
  dsimp only
  rw [hSS1, hFF, hGG, getD_toNat, getD_toNat, ← rotl_toNat M r.A, ← UInt32.toNat_xor, ← toNat_add4, ← toNat_add4,
    ← P0_toNat M, ← rotl_toNat M r.B, ← rotl_toNat M r.F]

/-- The registers after the loop. -/
theorem rounds_toNat (W W1 : List UInt32) (l : List Nat) (r : Words8 UInt32) :
    l.foldl (PySm3.round (W.map UInt32.toNat) (W1.map UInt32.toNat)) (r.map UInt32.toNat) =
      (l.foldl (CSm3.round M W W1) r).map UInt32.toNat := by
  induction l generalizing r with
  | nil => rfl
  | cons j l ih => rw [List.foldl_cons, List.foldl_cons, round_toNat M, ih]

/-- `WP`. -/
theorem scheduleP_toNat (W : List UInt32) : PySm3.scheduleP (W.map UInt32.toNat) = (CSm3.wToW1 W).map UInt32.toNat := by
  unfold PySm3.scheduleP CSm3.wToW1
  rw [List.map_map]
  refine List.map_congr_left ?_
  intro j _
  rw [getD_toNat, getD_toNat, ← UInt32.toNat_xor, toNat_and_mask]
  rfl

/-- A turn of the loop over `W`. The script writes over the first of its zeros what the board appends. -/
theorem expand_toNat (W : List UInt32) (rest : List Nat) (h : 16 ≤ W.length) :
    PySm3.expand (W.map UInt32.toNat ++ 0 :: rest) W.length = (CSm3.expand M W W.length).map UInt32.toNat ++ rest := by
  have hread : ∀ i, 0 < i → (W.map UInt32.toNat ++ 0 :: rest).getD (W.length - i) 0 = (W.getD (W.length - i) 0).toNat := by
    intro i hi
    rw [List.getD_append _ _ _ _ (by rw [List.length_map]; omega), getD_toNat]
  unfold PySm3.expand CSm3.expand
  dsimp only
  rw [hread 16 (by decide), hread 9 (by decide), hread 3 (by decide), hread 13 (by decide), hread 6 (by decide),
    ← rotl_toNat M, ← rotl_toNat M, ← UInt32.toNat_xor, ← UInt32.toNat_xor, ← P1_toNat M, ← UInt32.toNat_xor,
    ← UInt32.toNat_xor, toNat_and_mask]
  rw [List.set_append_right _ _ (by rw [List.length_map]), List.length_map, Nat.sub_self, List.set_cons_zero,
    List.map_append, List.append_assoc]
  rfl

/-- The loop over `W`. -/
theorem expand_loop_toNat (k : Nat) {W : List UInt32} (h : 16 ≤ W.length) :
    (List.range' W.length k).foldl PySm3.expand (W.map UInt32.toNat ++ List.replicate k 0) =
      ((List.range' W.length k).foldl (CSm3.expand M) W).map UInt32.toNat := by
  induction k generalizing W with
  | zero => exact List.append_nil _
  | succ k ih =>
    have hlen : (CSm3.expand M W W.length).length = W.length + 1 := List.length_append
    rw [List.range'_succ, List.foldl_cons, List.foldl_cons, List.replicate_succ, expand_toNat M W _ h, ← hlen]
    exact ih (by omega)

/-- Four bytes of a list. -/
theorem take_four (l : Bytes) {n : Nat} (h : n + 4 ≤ l.length) :
    (l.drop n).take 4 = [l.getD n 0, l.getD (n + 1) 0, l.getD (n + 2) 0, l.getD (n + 3) 0] := by
  rw [List.drop_eq_getElem_cons (by omega), List.drop_eq_getElem_cons (by omega), List.drop_eq_getElem_cons (by omega),
    List.drop_eq_getElem_cons (by omega)]
  simp only [List.getD_eq_getElem _ _ (by omega : n < l.length), List.getD_eq_getElem _ _ (by omega : n + 1 < l.length),
    List.getD_eq_getElem _ _ (by omega : n + 2 < l.length), List.getD_eq_getElem _ _ (by omega : n + 3 < l.length)]
  rfl

/-- A word of a block. -/
theorem getUint32Be_toNat (b : Vector UInt8 64) {i : Nat} (h : i + 4 ≤ 64) :
    BigEndian.decode ((b.toList.drop i).take 4) = (CSm3.getUint32Be b i).toNat := by
  rw [take_four _ (by rw [Vector.length_toList]; exact h)]
  unfold CSm3.getUint32Be BigEndian.decode
  dsimp only
  rw [toNat_of_bytes]
  simp only [List.foldl_cons, List.foldl_nil, Nat.zero_mul, Nat.zero_add]

/-- `W` of a block. -/
theorem schedule_toNat (b : Vector UInt8 64) : PySm3.schedule b.toList = (CSm3.biToW M b).map UInt32.toNat := by
  have hwords : (List.range 16).map (fun j => BigEndian.decode ((b.toList.drop (4 * j)).take 4)) =
      ((List.range 16).map fun i => CSm3.getUint32Be b (4 * i)).map UInt32.toNat := by
    rw [List.map_map]
    refine List.map_congr_left ?_
    intro j hj
    rw [List.mem_range] at hj
    exact getUint32Be_toNat b (by omega)
  have hlen : ((List.range 16).map fun i => CSm3.getUint32Be b (4 * i)).length = 16 := by
    rw [List.length_map, List.length_range]
  have hloop := expand_loop_toNat M 52 (Nat.le_of_eq hlen.symm)
  unfold PySm3.schedule CSm3.biToW
  rw [hlen] at hloop
  rw [hwords]
  exact hloop

/-- A word xor another, in all eight places. -/
theorem zipWith_xor_toNat (v w : Words8 UInt32) :
    (v.map UInt32.toNat).zipWith (· ^^^ ·) (w.map UInt32.toNat) = (v.zipWith (· ^^^ ·) w).map UInt32.toNat := by
  unfold Words8.zipWith Words8.map
  simp only [UInt32.toNat_xor]

/-- `gm_sm3_compress` does to the state what the script does with the block in the buffer. -/
theorem compress_toNat (ctx : CSm3.Context) :
    PySm3.compress (ctx.state.map UInt32.toNat) ctx.buf.toList = (CSm3.gmSm3Compress M ctx).state.map UInt32.toNat := by
  unfold PySm3.compress CSm3.gmSm3Compress CSm3.cf
  dsimp only
  rw [schedule_toNat M, scheduleP_toNat, rounds_toNat, zipWith_xor_toNat]

/-! ## The stream -/

/-- A context of the board holds the state and the rest that `t` bytes leave, and their number of bits as far as 64 bits go. -/
structure CSm3.Context.Holds (ctx : CSm3.Context) (z : Words8 Nat × Bytes) (t : Nat) : Prop where
  state : ctx.state.map UInt32.toNat = z.1
  len : ctx.curBufLen.toNat = z.2.length
  lt : z.2.length < 64
  buf : ctx.buf.toList.take z.2.length = z.2
  bits : ctx.compressedLen.toNat + 8 * z.2.length ≡ 8 * t [MOD 2 ^ 64]

/-- The buffer with one more byte. -/
theorem take_setIfInBounds (buf : Vector UInt8 64) (b : UInt8) {n : Nat} (h : n < 64) :
    (buf.setIfInBounds n b).toList.take (n + 1) = buf.toList.take n ++ [b] := by
  rw [Vector.toList_setIfInBounds, List.take_succ_eq_append_getElem (by simpa using h), List.take_set_of_le (Nat.le_refl n),
    List.getElem_set_self]

/-- One byte into the buffer. -/
theorem updateByte_holds {ctx : CSm3.Context} {z : Words8 Nat × Bytes} {t : Nat} (h : ctx.Holds z t) (b : UInt8) :
    (CSm3.updateByte M ctx b).Holds (Blocks.push 64 PySm3.compress z b) (t + 1) := by
  have hlt := h.lt
  have hbuf : (ctx.buf.setIfInBounds ctx.curBufLen.toNat b).toList.take (z.2.length + 1) = z.2 ++ [b] := by
    rw [h.len, take_setIfInBounds _ _ h.lt, h.buf]
  have hlen : (ctx.curBufLen + 1).toNat = z.2.length + 1 := by
    rw [UInt64.toNat_add, h.len]
    exact Nat.mod_eq_of_lt (by simp; omega)
  have hbits : ctx.compressedLen.toNat + 8 * (z.2.length + 1) ≡ 8 * (t + 1) [MOD 2 ^ 64] := h.bits.add_right 8
  unfold CSm3.updateByte
  dsimp only
  by_cases hfull : z.2.length + 1 = 64
  · rw [if_pos (by rw [← UInt64.toNat_inj, hlen, hfull]; rfl), Blocks.push_of_full hfull]
    refine ⟨?_, rfl, Nat.succ_pos _, List.take_zero, ?_⟩
    · dsimp only
      rw [← compress_toNat M, h.state, ← hbuf, List.take_of_length_le (by simp [hfull])]
    · rw [hfull] at hbits
      refine Nat.ModEq.trans ?_ hbits
      rw [List.length_nil, Nat.mul_zero, Nat.add_zero]
      exact (congrArg (· % 2 ^ 64) (UInt64.toNat_add _ _)).trans (Nat.mod_mod _ _)
  · rw [if_neg (by rw [← UInt64.toNat_inj, hlen]; exact hfull), Blocks.push_of_ne hfull]
    refine ⟨h.state, ?_, ?_, ?_, ?_⟩
    · rw [List.length_append]
      exact hlen
    · rw [List.length_append, List.length_singleton]
      omega
    · rw [List.length_append]
      exact hbuf
    · rw [List.length_append]
      exact hbits

/-- A string of bytes into the buffer. -/
theorem update_holds {ctx : CSm3.Context} {z : Words8 Nat × Bytes} {t : Nat} (h : ctx.Holds z t) (l : Bytes) :
    (CSm3.gmSm3Update M ctx l).Holds (Blocks.absorb 64 PySm3.compress z l) (t + l.length) := by
  induction l generalizing ctx z t with
  | nil => exact h
  | cons b l ih =>
    have hrest := ih (updateByte_holds M h b)
    rw [Nat.add_assoc, Nat.add_comm 1] at hrest
    exact hrest

/-- Chunks into the buffer are their bytes in a row. -/
theorem foldl_update (ctx : CSm3.Context) (chunks : List Bytes) :
    chunks.foldl (CSm3.gmSm3Update M) ctx = CSm3.gmSm3Update M ctx chunks.flatten := by
  unfold CSm3.gmSm3Update
  exact List.foldl_flatten.symm

/-- `gm_sm3_init` starts a message. -/
theorem init_holds (ctx : CSm3.Context) : (CSm3.gmSm3Init ctx).Holds (PySm3.IV, []) 0 :=
  ⟨rfl, rfl, by decide, List.take_zero, Nat.ModEq.refl _⟩

/-! ## The end of a message -/

/-- The lowest four bytes of a number. -/
theorem putUint32Be_toNat (v : UInt64) : CSm3.putUint32Be v = BigEndian.encode 4 v.toNat := by
  have hbyte : ∀ w : UInt64, w.toUInt8 = UInt8.ofNat w.toNat := fun _ => rfl
  have hshr : ∀ {n : UInt64} {k : Nat}, n.toNat = k → k < 64 → (v >>> n).toNat = v.toNat / 2 ^ k := by
    intro n k hn hk
    rw [UInt64.toNat_shiftRight, hn, Nat.mod_eq_of_lt hk, Nat.shiftRight_eq_div_pow]
  unfold CSm3.putUint32Be
  rw [hbyte, hbyte, hbyte, hbyte, hshr (k := 24) rfl (by decide), hshr (k := 16) rfl (by decide),
    hshr (k := 8) rfl (by decide)]
  simp only [BigEndian.encode_succ, BigEndian.encode_zero, Nat.div_div_eq_div_mul]
  rfl

/-- The two halves of a length of 64 bits are its bytes. -/
theorem msglen_toNat (n : UInt64) :
    CSm3.putUint32Be ((n >>> 32) &&& 0x0FFFFFFFF) ++ CSm3.putUint32Be (n &&& 0x0FFFFFFFF) = BigEndian.encode 8 n.toNat := by
  have hlow : (n &&& 0x0FFFFFFFF).toNat = n.toNat % 2 ^ 32 := (UInt64.toNat_and _ _).trans (and_mask _)
  have hhigh : ((n >>> 32) &&& 0x0FFFFFFFF).toNat = n.toNat / 2 ^ 32 := by
    have hn := n.toNat_lt
    refine (UInt64.toNat_and _ _).trans ((and_mask _).trans ?_)
    rw [UInt64.toNat_shiftRight, Nat.shiftRight_eq_div_pow]
    exact Nat.mod_eq_of_lt (Nat.div_lt_of_lt_mul hn)
  have hlt : n.toNat % 2 ^ 32 < 256 ^ 4 := Nat.mod_lt _ (by decide)
  rw [putUint32Be_toNat, putUint32Be_toNat, hlow, hhigh, ← BigEndian.encode_append 4 hlt]
  congr 1
  exact Nat.div_add_mod' n.toNat (2 ^ 32)

/-- `padn` of `gm_sm3_done`, for what is left in the buffer. -/
theorem padn_toNat {n : UInt64} (h : n.toNat < 64) :
    (if n + 1 ≤ 56 then 56 - n else 120 - n).toUInt32.toNat = if n.toNat + 1 ≤ 56 then 56 - n.toNat else 120 - n.toNat := by
  have hsucc : (n + 1).toNat = n.toNat + 1 := by
    rw [UInt64.toNat_add]
    exact Nat.mod_eq_of_lt (by simp; omega)
  have hle : n + 1 ≤ 56 ↔ n.toNat + 1 ≤ 56 := by
    rw [UInt64.le_iff_toNat_le, hsucc]
    rfl
  have hsub : ∀ m : UInt64, n.toNat ≤ m.toNat → m.toNat < 2 ^ 32 → (m - n).toUInt32.toNat = m.toNat - n.toNat := by
    intro m hm hlt
    rw [UInt64.toNat_toUInt32, UInt64.toNat_sub_of_le _ _ (UInt64.le_iff_toNat_le.mpr hm)]
    exact Nat.mod_eq_of_lt (by omega)
  by_cases hcase : n.toNat + 1 ≤ 56
  · rw [if_pos (hle.mpr hcase), if_pos hcase]
    exact hsub 56 (by change _ ≤ 56; omega) (by decide)
  · rw [if_neg (fun h => hcase (hle.mp h)), if_neg hcase]
    exact hsub 120 (by change _ ≤ 120; omega) (by decide)

/-- The padding of the board is that of the script. -/
theorem padding_eq (msg lengthBytes : Bytes) {r : Nat} (hr : r = msg.length % 64) :
    msg ++ (CSm3.gmSm3Padding.take (if r + 1 ≤ 56 then 56 - r else 120 - r) ++ lengthBytes) = PySm3.pad msg lengthBytes := by
  have hzeros : ((56 - ((msg ++ [0x80]).length % 64 : Int)) % 64).toNat + 1 = if r + 1 ≤ 56 then 56 - r else 120 - r := by
    rw [List.length_append, List.length_singleton]
    split <;> omega
  have htake : CSm3.gmSm3Padding.take (if r + 1 ≤ 56 then 56 - r else 120 - r) =
      0x80 :: List.replicate ((56 - ((msg ++ [0x80]).length % 64 : Int)) % 64).toNat 0 := by
    rw [← hzeros, CSm3.gmSm3Padding, List.take_succ_cons, List.take_replicate, Nat.min_eq_left (by omega)]
  unfold PySm3.pad
  rw [htake, List.append_assoc, List.append_assoc]
  rfl

/-- The padded message is cut into whole blocks. -/
theorem length_pad (msg : Bytes) {lengthBytes : Bytes} (h : lengthBytes.length = 8) :
    ∃ k, (PySm3.pad msg lengthBytes).length = 64 * k := by
  refine ⟨(PySm3.pad msg lengthBytes).length / 64, ?_⟩
  unfold PySm3.pad
  simp only [List.length_append, List.length_replicate, List.length_singleton, h]
  omega

/-- The bytes of the hash value. -/
theorem output_toNat (v : Words8 UInt32) :
    (v.toList.map fun w => CSm3.putUint32Be w.toUInt64).flatten =
      BigEndian.encode 32 ((v.map UInt32.toNat).toList.foldl (fun result x => (result <<< 32) ||| x) 0) := by
  have hfold : ∀ (l : List UInt32) (r : Nat), (l.map UInt32.toNat).foldl (fun result x => (result <<< 32) ||| x) r =
      (l.map UInt32.toNat).foldl (fun result x => result * 256 ^ 4 + x) r := by
    intro l
    induction l with
    | nil => exact fun r => rfl
    | cons w l ih =>
      intro r
      rw [List.map_cons, List.foldl_cons, List.foldl_cons, ih, ← Nat.shiftLeft_add_eq_or_of_lt w.toNat_lt,
        Nat.shiftLeft_eq]
      rfl
  have hwords : (v.map UInt32.toNat).toList = v.toList.map UInt32.toNat := rfl
  have hbytes := BigEndian.encode_foldl 4 (v.toList.map UInt32.toNat) fun n hn => by
    obtain ⟨w, -, rfl⟩ := List.mem_map.mp hn
    exact w.toNat_lt
  rw [hwords, hfold, ← hwords]
  refine Eq.trans ?_ hbytes.symm
  rw [List.map_map]
  refine congrArg List.flatten (List.map_congr_left fun w _ => ?_)
  rw [putUint32Be_toNat, UInt32.toNat_toUInt64]
  rfl

/-- `gm_sm3_done` gives the hash of what the context holds. -/
theorem done_eq {ctx : CSm3.Context} {msg : Bytes}
    (h : ctx.Holds (Blocks.absorb 64 PySm3.compress (PySm3.IV, []) msg) msg.length) (hlen : msg.length * 8 < 2 ^ 64) :
    (PySm3.sm3Hash msg).map (BigEndian.encode 32) = some (CSm3.gmSm3Done M ctx) := by
  have hr : ctx.curBufLen.toNat = msg.length % 64 := by
    rw [h.len, Blocks.length_absorb (by decide), List.length_nil, Nat.zero_add]
  have hcur : (ctx.curBufLen <<< 3).toNat = 8 * ctx.curBufLen.toNat := by
    have hlt := h.lt
    rw [UInt64.toNat_shiftLeft, Nat.shiftLeft_eq, h.len]
    exact (Nat.mod_eq_of_lt (by change _ * 8 < _; omega)).trans (Nat.mul_comm _ _)
  have htotal : (ctx.compressedLen + (ctx.curBufLen <<< 3)).toNat = msg.length * 8 := by
    rw [UInt64.toNat_add, hcur, h.len, h.bits, Nat.mul_comm, Nat.mod_eq_of_lt hlen]
  obtain ⟨k, hk⟩ := length_pad msg (BigEndian.length_encode 8 (msg.length * 8))
  -- The board takes in the padded message to its end, and that leaves nothing in the buffer.
  have hend := update_holds M (update_holds M h (CSm3.gmSm3Padding.take
    (if ctx.curBufLen.toNat + 1 ≤ 56 then 56 - ctx.curBufLen.toNat else 120 - ctx.curBufLen.toNat)))
    (BigEndian.encode 8 (msg.length * 8))
  rw [← Blocks.absorb_append, ← Blocks.absorb_append, padding_eq msg _ hr,
    Blocks.absorb_eq_foldl_slices (by decide) hk] at hend
  have hlength : PySm3.lengthBytes msg = some (BigEndian.encode 8 (msg.length * 8)) := if_pos hlen
  unfold CSm3.gmSm3Done PySm3.sm3Hash
  dsimp only
  rw [msglen_toNat, htotal, padn_toNat (by rw [h.len]; exact h.lt), output_toNat, hend.state, hlength]
  rfl

end AuthVideo
