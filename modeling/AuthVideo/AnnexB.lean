import AuthVideo.Cipher.ZucPy
import AuthVideo.Lib.Segments

/-!
# The I-frame encryption of an Annex B stream

`test6.py` and `dec_error.py`: the start codes of a stream, its NAL units, and the encryption of those of an I-frame. The two
scripts hold the same text of these functions, and `test6.py` holds a decryptor besides. A file is the string of its bytes.
-/

namespace AuthVideo

/-- What the scripts take from `hashlib`: `sha256`, a function into strings of 32 bytes. -/
structure Sha256 where
  digest : Bytes → Bytes
  length_digest : ∀ m, (digest m).length = 32

/-! ## The stream -/

/-- `START3`. -/
def START3 : Bytes := [0, 0, 1]

/-- `START4`. -/
def START4 : Bytes := [0, 0, 0, 1]

/-- The loop of `find_start_codes`, from a position on: positions and lengths. -/
def findStartCodesFrom (data : Bytes) (i : Nat) : List (Nat × Nat) :=
  if _h : i < data.length - 3 then
    if Segments.slice data i (i + 4) = START4 then (i, 4) :: findStartCodesFrom data (i + 4)
    else if Segments.slice data i (i + 3) = START3 then (i, 3) :: findStartCodesFrom data (i + 3)
    else findStartCodesFrom data (i + 1)
  else []
termination_by data.length - i

/-- `find_start_codes`. -/
def findStartCodes (data : Bytes) : List (Nat × Nat) := findStartCodesFrom data 0

/-- `split_annexb_nalus`: each start code with its NAL unit. Units shorter than 2 bytes are dropped. -/
def splitAnnexbNalus (data : Bytes) : Except PyError (List (Bytes × Bytes)) :=
  let scs := findStartCodes data
  if scs = [] then .error .valueError
  else .ok ((Segments.cut data scs).filter fun (_, nalu) => ¬nalu.length < 2)

/-- `join_annexb_nalus`. -/
def joinAnnexbNalus (nalus : List (Bytes × Bytes)) : Bytes := (nalus.map fun (sc, nalu) => sc ++ nalu).flatten

/-- `hevc_nal_unit_type`, on a unit that is not empty. -/
def hevcNalUnitType (nalu : Bytes) : Nat := ((nalu.headD 0).toNat >>> 1) &&& 0x3F

/-- `xor_bytes`. -/
def xorBytes (a b : Bytes) : Bytes := List.zipWith (· ^^^ ·) a b

/-! ## The key of a unit -/

/-- `KEEP_PLAINTEXT_TYPES`. -/
def keepPlaintextTypes : List Nat := [32, 33, 34, 35, 39, 40]

/-- `I_ONLY_TYPES`. -/
def iOnlyTypes : List Nat := [19, 20, 21]

/-- `extract_feat32`. -/
def extractFeat32 (nalu : Bytes) : Bytes :=
  let payload := nalu.drop 2
  if payload.length ≥ 32 then payload.take 32 else payload ++ List.replicate (32 - payload.length) 0

/-- `struct.pack(">I", n)`. -/
def packI (n : Nat) : Except PyError Bytes := if n < 2 ^ 32 then .ok (PyZuc.toBytes4 n) else .error .structError

/-- `kdf_key_iv`. -/
def Sha256.kdfKeyIv (H : Sha256) (masterKey32 feat32 : Bytes) (nalIndex : Nat) : Except PyError (Bytes × Bytes) := do
  let index ← packI nalIndex
  return (H.digest (masterKey32 ++ feat32 ++ index), (H.digest (feat32 ++ index ++ masterKey32)).take 16)

/-- The body of the loops for a unit that is encrypted: all but its header and the first bytes of its payload is masked. -/
def Sha256.xorNalu (H : Sha256) (masterKey32 : Bytes) (skipPrefix : Nat) (nalu : Bytes) (nalIndex : Nat) :
    Except PyError Bytes := do
  let header2 := nalu.take 2
  let payload := nalu.drop 2
  let clear := payload.take skipPrefix
  let body := payload.drop skipPrefix
  let feat32 := extractFeat32 nalu
  let (key32, iv16) ← H.kdfKeyIv masterKey32 feat32 nalIndex
  let ks ← PyZuc.zuc256Keystream key32 iv16 body.length
  let outBody := xorBytes body ks
  return header2 ++ clear ++ outBody

/-! ## The two passes -/

/-- The loop of `hevc_xor_i_only`. The index counts the units that are encrypted. -/
def Sha256.hevcXorIOnlyLoop (H : Sha256) (masterKey32 : Bytes) (skipPrefix : Nat) :
    Nat → List (Bytes × Bytes) → Except PyError (List (Bytes × Bytes))
  | _, [] => .ok []
  | nalIndex, (sc, nalu) :: nalus =>
    let ntype := hevcNalUnitType nalu
    if ntype ∈ keepPlaintextTypes then do
      let out ← H.hevcXorIOnlyLoop masterKey32 skipPrefix nalIndex nalus
      return (sc, nalu) :: out
    else if ntype ∉ iOnlyTypes then do
      let out ← H.hevcXorIOnlyLoop masterKey32 skipPrefix nalIndex nalus
      return (sc, nalu) :: out
    else if (nalu.drop 2).length ≤ skipPrefix then do
      let out ← H.hevcXorIOnlyLoop masterKey32 skipPrefix nalIndex nalus
      return (sc, nalu) :: out
    else do
      let nalu ← H.xorNalu masterKey32 skipPrefix nalu nalIndex
      let out ← H.hevcXorIOnlyLoop masterKey32 skipPrefix (nalIndex + 1) nalus
      return (sc, nalu) :: out

/-- `hevc_xor_i_only`, from the bytes of the one file to those of the other. -/
def Sha256.hevcXorIOnly (H : Sha256) (masterKey32 : Bytes) (skipPrefix : Nat) (data : Bytes) : Except PyError Bytes := do
  let nalus ← splitAnnexbNalus data
  let out ← H.hevcXorIOnlyLoop masterKey32 skipPrefix 0 nalus
  return joinAnnexbNalus out

/-- The loop of `hevc_xor_i_only_dec`. The index counts all units. -/
def Sha256.hevcXorIOnlyDecLoop (H : Sha256) (masterKey32 : Bytes) (skipPrefix : Nat) :
    Nat → List (Bytes × Bytes) → Except PyError (List (Bytes × Bytes))
  | _, [] => .ok []
  | nalIndex, (sc, nalu) :: nalus =>
    let ntype := hevcNalUnitType nalu
    if ntype ∈ keepPlaintextTypes then do
      let out ← H.hevcXorIOnlyDecLoop masterKey32 skipPrefix (nalIndex + 1) nalus
      return (sc, nalu) :: out
    else if ntype ∉ iOnlyTypes then do
      let out ← H.hevcXorIOnlyDecLoop masterKey32 skipPrefix (nalIndex + 1) nalus
      return (sc, nalu) :: out
    else if (nalu.drop 2).length ≤ skipPrefix then do
      let out ← H.hevcXorIOnlyDecLoop masterKey32 skipPrefix (nalIndex + 1) nalus
      return (sc, nalu) :: out
    else do
      let nalu ← H.xorNalu masterKey32 skipPrefix nalu nalIndex
      let out ← H.hevcXorIOnlyDecLoop masterKey32 skipPrefix (nalIndex + 1) nalus
      return (sc, nalu) :: out

/-- `hevc_xor_i_only_dec`. -/
def Sha256.hevcXorIOnlyDec (H : Sha256) (masterKey32 : Bytes) (skipPrefix : Nat) (data : Bytes) : Except PyError Bytes := do
  let nalus ← splitAnnexbNalus data
  let out ← H.hevcXorIOnlyDecLoop masterKey32 skipPrefix 0 nalus
  return joinAnnexbNalus out

end AuthVideo
