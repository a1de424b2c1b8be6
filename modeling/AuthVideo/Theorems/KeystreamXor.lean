import AuthVideo.Cipher.ZucBuffers
import AuthVideo.Lemmas.Rtp

/-!
# Theorem 51: the stream cipher on its buffers

`zuc256_keystream` copies a word at a time and `zuc256_crypt` writes byte by byte under a bound of its own. Both take the same words from
the generator, for every length, and `zuc256_crypt` may write over what it reads.
-/

namespace AuthVideo

open CZuc

/-! ## Memory -/

/-- Two ranges of `len` bytes that are one or do not meet. -/
def OneOrApart (p q len : Nat) : Prop := p = q ∨ p + len ≤ q ∨ q + len ≤ p

theorem read_succ (m : Mem) (p n : Nat) : m.read p (n + 1) = m p :: m.read (p + 1) n := by
  simp only [Mem.read, List.range_succ_eq_map, List.map_cons, List.map_map, Nat.add_zero]
  refine congrArg _ (List.map_congr_left fun i _ => ?_)
  rw [Function.comp_apply, Nat.succ_eq_add_one, Nat.add_assoc, Nat.add_comm 1]

theorem write_nil (m : Mem) (p : Nat) : m.write p [] = m := by
  funext i
  simp [Mem.write]

/-- A write with its first byte apart. -/
theorem write_cons (m : Mem) (p : Nat) (v : UInt8) (data : Bytes) : (m.put p v).write (p + 1) data = m.write p (v :: data) := by
  funext i
  simp only [Mem.write, Mem.put]
  by_cases hfirst : i = p
  · subst hfirst
    simp
  · by_cases hbehind : p + 1 ≤ i
    · have hplace : i - p = i - (p + 1) + 1 := by omega
      simp only [hbehind, if_true, hfirst, if_false, (by omega : p ≤ i), hplace, List.getD_cons_succ]
    · have hbefore : ¬p ≤ i := by omega
      simp only [hbehind, hbefore, if_false, hfirst]

/-- Two writes one behind the other. -/
theorem write_append (m : Mem) (p : Nat) (data data' : Bytes) :
    (m.write p data).write (p + data.length) data' = m.write p (data ++ data') := by
  induction data generalizing m p with
  | nil => rw [write_nil, List.length_nil, Nat.add_zero, List.nil_append]
  | cons v data ih =>
    have hplace : p + (v :: data).length = p + 1 + data.length := by
      rw [List.length_cons]
      omega
    rw [← write_cons, hplace, ih, write_cons, List.cons_append]

/-- A write changes its own range only. -/
theorem write_outside (m : Mem) (p : Nat) (data : Bytes) {i : Nat} (hi : i < p ∨ p + data.length ≤ i) : m.write p data i = m i := by
  simp only [Mem.write]
  split
  · exact List.getD_eq_default _ _ (by omega)
  · rfl

/-! ## The loops -/

/-- The inner loop lays the bytes of a word over the next bytes. -/
theorem cryptBytes_fst {inp out len : Nat} (happart : OneOrApart inp out len) (ks : Bytes) (m : Mem) (produced : Nat) :
    (cryptBytes inp out len ks m produced).1 =
      m.write (out + produced) (List.zipWith (· ^^^ ·) (m.read (inp + produced) (min ks.length (len - produced))) ks) := by
  induction ks generalizing m produced with
  | nil => simp [cryptBytes, write_nil]
  | cons k ks ih =>
    rw [cryptBytes, List.length_cons]
    split
    · rename_i hlt
      have hcount : min (ks.length + 1) (len - produced) = min ks.length (len - (produced + 1)) + 1 := by omega
      -- what is still to be read lies behind the byte, or in the other buffer
      have hread : (m.put (out + produced) (m (inp + produced) ^^^ k)).read (inp + (produced + 1))
          (min ks.length (len - (produced + 1))) = m.read (inp + produced + 1) (min ks.length (len - (produced + 1))) := by
        refine read_congr ?_
        intro i hfrom hto
        rw [Mem.put, if_neg]
        rcases happart with rfl | hapart | hapart <;> omega
      rw [ih, hread, hcount, read_succ, List.zipWith_cons_cons, ← write_cons, Nat.add_assoc out]
    · rename_i hdone
      have hcount : min (ks.length + 1) (len - produced) = 0 := by omega
      rw [hcount]
      simp [Mem.read, write_nil]

/-- A turn of `zuc256_crypt`. -/
theorem zuc256Crypt_of_pos (ctx : Zuc256Ctx) {input : Bytes} (hpos : 0 < input.length) :
    zuc256Crypt ctx input =
      (List.zipWith (· ^^^ ·) (input.take 4) (wordBytes (zuc256KeystreamWord ctx).1) ++
          (zuc256Crypt (zuc256KeystreamWord ctx).2 (input.drop 4)).1,
        (zuc256Crypt (zuc256KeystreamWord ctx).2 (input.drop 4)).2) := by
  rw [zuc256Crypt, dif_pos hpos]

/-- The part of a range that is read first, and the rest. -/
theorem read_take_drop (m : Mem) (p n k : Nat) :
    (m.read p n).take k = m.read p (min k n) ∧ (m.read p n).drop k = m.read (p + k) (n - k) := by
  constructor
  · refine List.ext_getElem (by simp) ?_
    intro i hi hi'
    rw [List.getElem_take, getElem_read, getElem_read]
  · refine List.ext_getElem (by simp) ?_
    intro i hi hi'
    rw [List.getElem_drop, getElem_read, getElem_read, Nat.add_assoc]

/-- The loop on the buffers is the one on the bytes that stand in `in`. -/
theorem zuc256CryptLoop_eq {inp out len : Nat} (happart : OneOrApart inp out len) (ctx : Zuc256Ctx) (m : Mem) (produced : Nat) :
    zuc256CryptLoop inp out len ctx m produced =
      (m.write (out + produced) (zuc256Crypt ctx (m.read (inp + produced) (len - produced))).1,
        (zuc256Crypt ctx (m.read (inp + produced) (len - produced))).2) := by
  induction hleft : len - produced using Nat.strongRecOn generalizing ctx m produced with
  | ind left ih =>
    rw [zuc256CryptLoop]
    by_cases hlt : produced < len
    · rw [dif_pos hlt]
      have hword : (wordBytes (zuc256KeystreamWord ctx).1).length = 4 := rfl
      have hbytes := cryptBytes_fst happart (wordBytes (zuc256KeystreamWord ctx).1) m produced
      have hnext := cryptBytes_snd inp out len (wordBytes (zuc256KeystreamWord ctx).1) m produced
      rw [hword, hleft] at hbytes hnext
      obtain ⟨htake, hdrop⟩ := read_take_drop m (inp + produced) left 4
      rw [← htake] at hbytes
      set block := List.zipWith (· ^^^ ·) ((m.read (inp + produced) left).take 4) (wordBytes (zuc256KeystreamWord ctx).1) with hblock
      have hblocklen : block.length = min 4 left := by
        rw [hblock, List.length_zipWith, List.length_take, length_read, hword, Nat.min_right_comm, Nat.min_self]
      -- the rest of the input is not written to
      have hrest : (m.write (out + produced) block).read (inp + (produced + min 4 left)) (left - min 4 left) =
          (m.read (inp + produced) left).drop 4 := by
        have hcut : m.read (inp + produced + 4) (left - 4) = m.read (inp + (produced + min 4 left)) (left - min 4 left) := by
          rcases Nat.le_total 4 left with hle | hle
          · rw [Nat.min_eq_left hle, Nat.add_assoc]
          · rw [Nat.min_eq_right hle, Nat.sub_self, Nat.sub_eq_zero_of_le hle]
            rfl
        rw [hdrop, hcut]
        refine read_congr ?_
        intro i hfrom hto
        refine write_outside m _ block ?_
        rw [hblocklen]
        rcases happart with rfl | hapart | hapart <;> omega
      have hplace : out + (produced + min 4 left) = out + produced + block.length := by rw [hblocklen, Nat.add_assoc]
      have hcount : len - (produced + min 4 left) = left - min 4 left := by omega
      have hpos : 0 < (m.read (inp + produced) left).length := by
        rw [length_read]
        omega
      dsimp only
      rw [hbytes, hnext, ih (left - min 4 left) (by omega) _ _ _ hcount, hrest, hplace, write_append, zuc256Crypt_of_pos ctx hpos]
    · have hzero : left = 0 := by omega
      rw [dif_neg hlt, hzero, zuc256Crypt, dif_neg (by simp), write_nil]

/-- `zuc256_crypt` leaves the context that `zuc256_keystream` leaves. -/
theorem zuc256Crypt_snd (ctx : Zuc256Ctx) (input : Bytes) : (zuc256Crypt ctx input).2 = (zuc256Keystream ctx input.length).2 := by
  induction hlen : input.length using Nat.strongRecOn generalizing ctx input with
  | ind n ih =>
    by_cases hpos : 0 < n
    · rw [zuc256Crypt_of_pos ctx (by omega), zuc256Keystream_of_pos hpos]
      exact ih (n - 4) (by omega) _ _ (by rw [List.length_drop, hlen])
    · have hnil : input = [] := List.eq_nil_of_length_eq_zero (by omega)
      have hzero : n = 0 := by omega
      rw [hnil, hzero, zuc256Keystream_zero, zuc256Crypt, dif_neg (by decide)]

/-! ## Encryption and decryption -/

/-- Two masks of the same bytes cancel. -/
theorem zipWith_xor_cancel {data ks : Bytes} (h : ks.length = data.length) :
    List.zipWith (· ^^^ ·) (List.zipWith (· ^^^ ·) data ks) ks = data := by
  refine List.ext_getElem (by simp [h]) ?_
  intro i hi hi'
  rw [List.getElem_zipWith, List.getElem_zipWith, UInt8.xor_assoc, UInt8.xor_self, UInt8.xor_zero]

/-- A call of `zuc256_crypt` on two buffers, or on one. -/
theorem zuc256CryptBuf_eq {inp out len : Nat} (happart : OneOrApart inp out len) (ctx : Zuc256Ctx) (m : Mem) :
    zuc256CryptBuf ctx m inp out len =
      (m.write out (List.zipWith (· ^^^ ·) (m.read inp len) (zuc256Keystream ctx len).1), (zuc256Keystream ctx len).2) := by
  rw [zuc256CryptBuf, zuc256CryptLoop_eq happart, Nat.add_zero, Nat.add_zero, Nat.sub_zero, zuc256Crypt_fst, zuc256Crypt_snd,
    length_read]

/-- What it writes is read back. -/
theorem read_zuc256CryptBuf {inp out len : Nat} (happart : OneOrApart inp out len) (ctx : Zuc256Ctx) (m : Mem) :
    (zuc256CryptBuf ctx m inp out len).1.read out len =
      List.zipWith (· ^^^ ·) (m.read inp len) (zuc256Keystream ctx len).1 := by
  have hlen : (List.zipWith (· ^^^ ·) (m.read inp len) (zuc256Keystream ctx len).1).length = len := by
    rw [List.length_zipWith, length_read, length_zuc256Keystream, Nat.min_self]
  rw [zuc256CryptBuf_eq happart]
  dsimp only
  have hback := read_write m out (List.zipWith (· ^^^ ·) (m.read inp len) (zuc256Keystream ctx len).1)
  rwa [hlen] at hback

/-- Theorem 51 (stream encryption). For every context, every length and every content of the memory: `zuc256_crypt` writes the input
with the bytes of `zuc256_keystream` laid over it, changes nothing else, and leaves the same context, from one buffer into another or in
place. After `zuc256_init` with the same key and the same IV of 16 or 25 bytes a second call gives the data back. -/
theorem crypt_xors_keystream {inp out len : Nat} (happart : OneOrApart inp out len) (ctx : Zuc256Ctx) (m : Mem) :
    zuc256CryptBuf ctx m inp out len =
        (m.write out (List.zipWith (· ^^^ ·) (m.read inp len) (zuc256Keystream ctx len).1), (zuc256Keystream ctx len).2) ∧
      ∀ (key : Vector UInt8 32) (iv : Bytes) (back : Nat), (iv.length = 16 ∨ iv.length = 25) → OneOrApart out back len →
        ∃ ctx, zuc256Init key iv = some ctx ∧
          (zuc256CryptBuf ctx (zuc256CryptBuf ctx m inp out len).1 out back len).1.read back len = m.read inp len := by
  refine ⟨zuc256CryptBuf_eq happart ctx m, ?_⟩
  intro key iv back hiv hback
  refine ⟨zuc256InitState key iv, if_neg (by omega), ?_⟩
  rw [read_zuc256CryptBuf hback, read_zuc256CryptBuf happart]
  exact zipWith_xor_cancel (by rw [length_zuc256Keystream, length_read])

/-- 28 bytes in place, in a memory of zeros, under the key and the IV of zeros. -/
theorem crypt_xors_keystream_inplace :
    zuc256XorInplace (zuc256InitState (.replicate 32 0) (List.replicate 16 0)) (fun _ => 0) 0 28 =
      (Mem.write (fun _ => 0) 0 (List.zipWith (· ^^^ ·) (Mem.read (fun _ => 0) 0 28)
          (zuc256Keystream (zuc256InitState (.replicate 32 0) (List.replicate 16 0)) 28).1),
        (zuc256Keystream (zuc256InitState (.replicate 32 0) (List.replicate 16 0)) 28).2) :=
  (crypt_xors_keystream (.inl rfl) (zuc256InitState (.replicate 32 0) (List.replicate 16 0)) (fun _ => 0)).1

end AuthVideo
