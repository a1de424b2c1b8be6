import AuthVideo.Rtp

/-!
# ZUC-256 of the boards on its buffers

`zuc256_crypt` reads `in` and writes `out` byte by byte, and `zuc256_xor_inplace` calls it with one buffer for both.
-/

namespace AuthVideo

/-- The memory after the byte at `p` is replaced. -/
def Mem.put (m : Mem) (p : Nat) (v : UInt8) : Mem := fun i => if i = p then v else m i

namespace CZuc

/-- The inner loop of `zuc256_crypt` over the bytes of `ks` that are left: the memory, and `produced`. -/
def cryptBytes (inp out len : Nat) : Bytes → Mem → Nat → Mem × Nat
  | [], m, produced => (m, produced)
  | k :: ks, m, produced =>
    if produced < len then cryptBytes inp out len ks (m.put (out + produced) (m (inp + produced) ^^^ k)) (produced + 1)
    else (m, produced)

/-- The inner loop takes as many bytes as are left, at most those of a word. -/
theorem cryptBytes_snd (inp out len : Nat) (ks : Bytes) (m : Mem) (produced : Nat) :
    (cryptBytes inp out len ks m produced).2 = produced + min ks.length (len - produced) := by
  induction ks generalizing m produced with
  | nil => simp [cryptBytes]
  | cons k ks ih =>
    rw [cryptBytes]
    split
    · rw [ih, List.length_cons]
      omega
    · rw [List.length_cons]
      dsimp only
      omega

/-- `zuc256_crypt`, from the turn on in which `produced` bytes are written. -/
def zuc256CryptLoop (inp out len : Nat) (ctx : Zuc256Ctx) (m : Mem) (produced : Nat) : Mem × Zuc256Ctx :=
  if _h : produced < len then
    let word := zuc256KeystreamWord ctx
    let inner := cryptBytes inp out len (wordBytes word.1) m produced
    zuc256CryptLoop inp out len word.2 inner.1 inner.2
  else (m, ctx)
termination_by len - produced
decreasing_by
  rw [cryptBytes_snd]
  have hlen : (wordBytes (zuc256KeystreamWord ctx).1).length = 4 := rfl
  omega

/-- `zuc256_crypt`. -/
def zuc256CryptBuf (ctx : Zuc256Ctx) (m : Mem) (inp out len : Nat) : Mem × Zuc256Ctx := zuc256CryptLoop inp out len ctx m 0

/-- `zuc256_xor_inplace`. -/
def zuc256XorInplace (ctx : Zuc256Ctx) (m : Mem) (buf len : Nat) : Mem × Zuc256Ctx := zuc256CryptBuf ctx m buf buf len

end CZuc

end AuthVideo
