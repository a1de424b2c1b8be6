import AuthVideo.Cipher.Sm3Py
import AuthVideo.Lemmas.HonestRun

/-!
# SM3 under the simulation

`gmssl` computes SM3, as the hash of the comparison script does. With it in the place of the parameter, and a text given to it
as its ASCII bytes, the first registration at the sample centre is a run that the programs make.
-/

namespace AuthVideo

/-- The digest of a text of ASCII characters. -/
def gmDigest (t : Text) : Bytes := BigEndian.encode 32 ((PySm3.sm3Hash (t.map fun c => UInt8.ofNat c.toNat)).getD 0)

/-- The interpreter with SM3 and without a limit on conversions. -/
def gmCtx : Ctx where
  sm3 t := BigEndian.decode (gmDigest t)
  sm3_lt t := by
    have h := BigEndian.decode_lt (gmDigest t)
    rw [gmDigest, BigEndian.length_encode] at h
    exact h
  maxStrDigits := 0

/-- The first registration at the sample centre is honest. -/
theorem gmHonest : gmCtx.Honest sampleCenter none 1 2 3 4 := by
  obtain ⟨hp, hq, hp2, hq2, hpq, hN, he, hpw, hL, -, -⟩ := sampleHonest
  exact ⟨hp, hq, hp2, hq2, hpq, hN, he, hpw, hL, fun _ hmem => absurd hmem List.not_mem_nil, rfl⟩

/-! ## The values of the registration -/

/-- The pseudonym, the hash of the password and the hash of another one. -/
theorem gm_hashes :
    gmCtx.pseudonym 1 4 3 = 93904685699167129644933170915825273473400246461782050947205807004179835679043 ∧
      gmCtx.sm3Nat [2, sampleCenter.sk] = 97004952656893304000077634322520908614191512480647197152741768548712364680033 ∧
      gmCtx.sm3Nat [9, sampleCenter.sk] = 103070533479478312627090445363198655378931016562397074069619902124382516638594 := by
  decide +kernel

/-- The hash of the password. -/
theorem gm_password : gmCtx.sm3Nat [2, sampleCenter.sk] =
    97004952656893304000077634322520908614191512480647197152741768548712364680033 := gm_hashes.2.1

/-- The verifiers of the two passwords. -/
theorem gm_verifiers :
    gmCtx.verifier sampleCenter 2 (gmCtx.pseudonym 1 4 3) =
        100552880848016761472226209639558055558602807113217976489705812300014904478303 ∧
      gmCtx.verifier sampleCenter 9 (gmCtx.pseudonym 1 4 3) =
        70624979687626932066975487680046498091496783332945605584996873744676551669391 := by
  obtain ⟨hpseudonym, hpassword, hother⟩ := gm_hashes
  rw [Ctx.verifier, Ctx.verifier, hpseudonym, hpassword, hother]
  decide +kernel

end AuthVideo
