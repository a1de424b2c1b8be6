import AuthVideo.AnnexB
import AuthVideo.Cipher.ZucTest1

/-!
# The sparse encryption of a frame in place

`test1.py`: the start codes of a packet, and the XOR of every so many bytes of its slices in the file that holds it. The file is mapped
into memory, so that what is read is a copy and what is written goes to places of the file. A call gives `none` where it raises.
-/

namespace AuthVideo

namespace Test1

/-! ## Constants -/

/-- `SKIP_PREFIX_BYTES`. -/
def skipPrefixBytes : Nat := 48

/-- `ZUC_KEY`. -/
def zucKey : Bytes := List.replicate 32 0x11

/-! ## The strength -/

/-- What the script takes from the floats of Python: `0.0`, `rho <= 0`, and `int(round(1.0 / rho))` where that does not raise. -/
structure Floats (R : Type) where
  zero : R
  nonpos : R → Bool
  roundInverse : R → Option Int

/-- `rho_for_type`. A configuration holds its numbers under their names. -/
def Floats.rhoForType {R : Type} (F : Floats R) (cfg : List (String × R)) (pictType : String) : R :=
  if pictType = "I" then (cfg.lookup "rho_I").getD F.zero
  else if pictType = "P" then (cfg.lookup "rho_P").getD F.zero
  else if pictType = "B" then (cfg.lookup "rho_B").getD F.zero
  else F.zero

/-- `derive_iv16`. -/
def deriveIv16 (H : Sha256) (cfgName : String) (frameIdx : Nat) : Bytes :=
  let msg := (cfgName ++ "|" ++ toString frameIdx).toUTF8.toList
  (H.digest msg).take 16

/-! ## The units -/

/-- The loop of `find_start_codes`, from a position on: positions and lengths. -/
def findStartCodesFrom (buf : Bytes) (i : Nat) : List (Nat × Nat) :=
  if _h : i + 3 < buf.length then
    if buf[i]? = some 0 ∧ buf[i + 1]? = some 0 ∧ buf[i + 2]? = some 1 then (i, 3) :: findStartCodesFrom buf (i + 3)
    else if i + 4 < buf.length ∧ buf[i]? = some 0 ∧ buf[i + 1]? = some 0 ∧ buf[i + 2]? = some 0 ∧ buf[i + 3]? = some 1 then
      (i, 4) :: findStartCodesFrom buf (i + 4)
    else findStartCodesFrom buf (i + 1)
  else []
termination_by buf.length - i

/-- `find_start_codes`. -/
def findStartCodes (buf : Bytes) : List (Nat × Nat) := findStartCodesFrom buf 0

/-- `hevc_nal_unit_type`. -/
def hevcNalUnitType (firstHeaderByte : UInt8) : Nat := (firstHeaderByte.toNat >>> 1) &&& 0x3F

/-- `is_vcl_nal`. -/
def isVclNal (nalType : Nat) : Bool := nalType ≤ 31

/-! ## The encryption -/

/-- `range(start, stop, step)`, for a step that is not zero. -/
def range (start stop step : Nat) : List Nat := List.range' start ((stop - start + (step - 1)) / step) step

/-- What changes in the loop: the cipher, the file and the count. -/
structure Progress where
  zuc : PyZuc.State
  mm : Bytes
  encrypted : Nat

/-- The loop over `positions`, from an index on. -/
def xorPositions (ks : Bytes) : Nat → List Nat → Progress → Option Progress
  | _, [], s => some s
  | i, pos :: positions, s => do
    let b ← s.mm[pos]?
    let k ← ks[i]?
    xorPositions ks (i + 1) positions { s with mm := s.mm.set pos (b ^^^ k), encrypted := s.encrypted + 1 }

/-- The body of the loop over the start codes, for one of them and those behind it. -/
def encryptNal (pktPos : Nat) (seg : Bytes) (step scPos scLen : Nat) (rest : List (Nat × Nat)) (s : Progress) : Option Progress :=
  let nalHdrPos := scPos + scLen
  if nalHdrPos + 2 > seg.length then some s
  else
    let nalEnd := Segments.next seg.length rest
    do
      let b0 ← seg[nalHdrPos]?
      let nalType := hevcNalUnitType b0
      if ¬isVclNal nalType then some s
      else
        let absPayloadStart := pktPos + nalHdrPos + 2 + skipPrefixBytes
        let absNalEnd := pktPos + nalEnd
        if absPayloadStart ≥ absNalEnd then some s
        else
          let positions := range absPayloadStart absNalEnd step
          let (ks, zuc) := Test1Zuc.keystreamBytes s.zuc positions.length
          xorPositions ks 0 positions { s with zuc }

/-- The loop over the start codes. -/
def encryptNals (pktPos : Nat) (seg : Bytes) (step : Nat) : List (Nat × Nat) → Progress → Option Progress
  | [], s => some s
  | (scPos, scLen) :: scs, s => do
    let s ← encryptNal pktPos seg step scPos scLen scs s
    encryptNals pktPos seg step scs s

/-- `encrypt_frame_packet_inplace`: the file afterwards and the count. -/
def encryptFramePacketInplace {R : Type} (F : Floats R) (H : Sha256) (mm : Bytes) (pktPos pktSize : Nat) (pictType cfgName : String)
    (cfg : List (String × R)) (frameIdx : Nat) : Option (Bytes × Nat) :=
  let rho := F.rhoForType cfg pictType
  if F.nonpos rho then some (mm, 0)
  else do
    let rounded ← F.roundInverse rho
    let step := (max 2 rounded).toNat
    let seg := Segments.slice mm pktPos (pktPos + pktSize)
    let scs := findStartCodes seg
    if scs = [] then some (mm, 0)
    else
      let iv := deriveIv16 H cfgName frameIdx
      let zuc ← (Test1Zuc.ZUC256 zucKey iv).toOption
      let s ← encryptNals pktPos seg step scs ⟨zuc, mm, 0⟩
      return (s.mm, s.encrypted)

end Test1

end AuthVideo
