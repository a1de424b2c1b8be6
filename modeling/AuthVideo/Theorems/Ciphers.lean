import AuthVideo.Lemmas.Sm3Agree
import AuthVideo.Lemmas.ZucAgree

/-!
# Theorems 20 and 21: one cipher and one hash on both sides

The boards and the scripts each have their own ZUC-256 and SM3, in words that wrap and in integers that are masked. From the
same key and IV the ciphers give the same keystream, however it is asked for; of the same message the hashes give the same
digest, however it comes in.
-/

namespace AuthVideo

/-- A call of `zuc256_keystream`: the context it leaves and the bytes. -/
def CZuc.keystreamCall (ctx : CZuc.Zuc256Ctx) (len : Nat) : CZuc.Zuc256Ctx × Bytes := (CZuc.zuc256Keystream ctx len).swap

/-- A call of `keystream_bytes`: the object it leaves and the bytes. -/
def Test1Zuc.keystreamCall (z : PyZuc.State) (n : Nat) : PyZuc.State × Bytes := (Test1Zuc.keystreamBytes z n).swap

/-- Theorem 20 (one cipher). For every key of 32 bytes and every IV of 16 or 25, `zuc256_init` and the constructor both
succeed, and calls for the same lengths give the same bytes. -/
theorem ciphers_agree (key : Vector UInt8 32) (iv : Bytes) (hiv : iv.length = 16 ∨ iv.length = 25) (lens : List Nat) :
    ∃ ctx z, CZuc.zuc256Init key iv = some ctx ∧ Test1Zuc.ZUC256 key.toList iv = .ok z ∧
      Transducer.run CZuc.keystreamCall ctx lens = Transducer.run Test1Zuc.keystreamCall z lens := by
  have hlen : ¬(iv.length ≠ 16 ∧ iv.length ≠ 25) := by omega
  obtain ⟨hinit, hfits⟩ := initState_toPy key iv
  refine ⟨CZuc.zuc256InitState key iv, Test1Zuc.initState key.toList iv, if_neg hlen, ?_, ?_⟩
  · unfold Test1Zuc.ZUC256
    rw [if_neg (not_not.mpr (Vector.length_toList)), if_neg hlen]
  · refine Transducer.run_eq_of_simulation (fun ctx z => z = ctx.toPy ∧ ctx.Fits) ?_ ⟨hinit, hfits⟩ lens
    rintro ctx _ len ⟨rfl, h⟩
    obtain ⟨hcall, hend⟩ := keystreamBytes_toPy h len
    unfold CZuc.keystreamCall Test1Zuc.keystreamCall
    rw [hcall]
    exact ⟨rfl, rfl, hend⟩

/-- Two calls with an IV of 25 bytes, the first of them cut in its second word. -/
theorem ciphers_agree_sample :
    ∃ ctx z, CZuc.zuc256Init (.replicate 32 0x11) (List.replicate 25 0x22) = some ctx ∧
      Test1Zuc.ZUC256 (Vector.replicate 32 0x11).toList (List.replicate 25 0x22) = .ok z ∧
      Transducer.run CZuc.keystreamCall ctx [5, 4] = Transducer.run Test1Zuc.keystreamCall z [5, 4] :=
  ciphers_agree (.replicate 32 0x11) (List.replicate 25 0x22) (Or.inr rfl) [5, 4]

/-- Theorem 21 (one hash). For every message of less than `2 ^ 64` bits and every way to cut it into chunks, whatever the
context held before and whatever the machine makes of a shift by 32, the board's digest of the chunks is the script's integer in
32 bytes. -/
theorem hashes_agree (M : Shr32) (ctx : CSm3.Context) (chunks : List Bytes) (h : chunks.flatten.length * 8 < 2 ^ 64) :
    (PySm3.sm3Hash chunks.flatten).map (BigEndian.encode 32) = some (CSm3.digestChunks M ctx chunks) := by
  have hheld := update_holds M (init_holds ctx) chunks.flatten
  rw [Nat.zero_add] at hheld
  unfold CSm3.digestChunks
  rw [foldl_update]
  exact done_eq M hheld h

/-- A message of 56 bytes, the shortest that needs a second block, in two chunks. -/
theorem hashes_agree_sample :
    (PySm3.sm3Hash [List.replicate 55 0x61, [0x62]].flatten).map (BigEndian.encode 32) =
      some (CSm3.digestChunks ⟨fun _ => 0, fun _ => Or.inl rfl⟩ ⟨CSm3.IV, .replicate 64 0, 0, 0⟩
        [List.replicate 55 0x61, [0x62]]) :=
  hashes_agree ⟨fun _ => 0, fun _ => Or.inl rfl⟩ ⟨CSm3.IV, .replicate 64 0, 0, 0⟩ [List.replicate 55 0x61, [0x62]]
    (by decide)

end AuthVideo
