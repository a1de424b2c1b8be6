import AuthVideo.AnnexB
import AuthVideo.Cipher.ZucTestTime

/-!
# The packet encryption of `test_time.py`

The timing script encrypts a packet in memory and decrypts it again. All units of a packet share one cipher: each takes the next
bytes of its keystream, from a new word on. The times that the functions measure are left out.
-/

namespace AuthVideo

/-- `split_annexb_nals`. Its loop is that of `find_start_codes`. No unit is dropped, and a packet without a start code is one unit. -/
def splitAnnexbNals (data : Bytes) : List (Bytes × Bytes) :=
  let positions := findStartCodes data
  if positions = [] then [([], data)] else Segments.cut data positions

/-- `hevc_nal_type`. -/
def hevcNalType (nal : Bytes) : Int := if nal.length ≥ 2 then ↑(((nal.headD 0).toNat >>> 1) &&& 0x3F) else -1

/-- `should_encrypt_nal`. -/
def shouldEncryptNal (nalType : Int) : Prop := 0 ≤ nalType ∧ nalType ≤ 31

instance (nalType : Int) : Decidable (shouldEncryptNal nalType) := inferInstanceAs (Decidable (_ ∧ _))

/-- The loop of `encrypt_hevc_packet_selective`: `out` and `enc_bytes`. -/
def encryptNals : List (Bytes × Bytes) → PyZuc.State → Bytes × Nat
  | [], _ => ([], 0)
  | (sc, nal) :: nals, zuc =>
    if nal.length < 3 then
      let (out, encBytes) := encryptNals nals zuc
      (sc ++ nal ++ out, encBytes)
    else if shouldEncryptNal (hevcNalType nal) then
      let header := nal.take 2
      let payload := nal.drop 2
      let (ks, zuc) := TimeZuc.keystream zuc payload.length
      let (out, encBytes) := encryptNals nals zuc
      (sc ++ (header ++ xorBytes payload ks) ++ out, payload.length + encBytes)
    else
      let (out, encBytes) := encryptNals nals zuc
      (sc ++ nal ++ out, encBytes)

/-- `encrypt_hevc_packet_selective`. -/
def encryptHevcPacketSelective (packetBytes key32 iv16 : Bytes) : Except PyError (Bytes × Nat) := do
  let nals := splitAnnexbNals packetBytes
  let zuc ← TimeZuc.ZUC256 key32 iv16
  return encryptNals nals zuc

/-- `decrypt_hevc_packet_selective`. -/
def decryptHevcPacketSelective (packetBytes key32 iv16 : Bytes) : Except PyError (Bytes × Nat) :=
  encryptHevcPacketSelective packetBytes key32 iv16

/-- The check that `simulate_one_gop_case` makes of a packet: what comes back from the decryption. -/
def syncCheck (packetBytes key32 iv16 : Bytes) : Except PyError Bytes := do
  let cb ← encryptHevcPacketSelective packetBytes key32 iv16
  let plain ← decryptHevcPacketSelective cb.1 key32 iv16
  return plain.1

end AuthVideo
