import AuthVideo.Board.Modular
import AuthVideo.Board.Text
import AuthVideo.Cipher.Sm3C
import AuthVideo.Device
import AuthVideo.EmbeddedChebyshev

/-!
# The protocol on the boards

`protocol.c`: the registration, `auth_pre`, and the two halves of the key generation. The checks print a line, which is recorded
as a verdict as for the device of the simulation. Of the variables at file level those are state that a later call reads before
it writes them. The prime that `creat_number` returns is an argument.
-/

namespace AuthVideo

/-- What the code leaves to the machine: the shift by 32, what the stack holds where `gm_sm3` puts its context, and the number of
turns after which a loop is given up as one that does not end. -/
structure Chip where
  shr32 : Shr32
  stack : CSm3.Context
  fuel : Nat

/-- `Client`. -/
structure Client where
  userid : Int32
  password : Int32
  bio : Int32
  A : Uint256
  d : Uint256
  N : Uint256
  x : Uint256
  pk : Uint256
  L : Uint256
  N1 : Uint256
  PID : Uint256
  QID : Uint256
  a1 : Uint256
  b : Uint256
  TA : Uint256
  TB : Uint256
  TA1 : Uint256
  deriving DecidableEq

/-- `Auth_Param`. -/
structure AuthParam where
  QA : Uint256
  QPW : Uint256
  QID : Uint256
  deriving DecidableEq

/-- `Share_Param`. -/
structure ShareParam where
  N2 : Uint256
  TC : Uint256
  QID : Uint256
  HM3 : Uint256
  deriving DecidableEq

/-- The variables of `protocol.c` that outlive a call, and `carry4` of `ChebyShev.c`. -/
structure Statics where
  client : Client
  A : Uint256
  d : Uint256
  N : Uint256
  x : Uint256
  pk : Uint256
  L : Uint256
  N1 : Uint256
  strQID1 : Bytes
  strM1 : Bytes
  strHM21 : Bytes
  QID1 : Uint256
  M1 : Uint256
  HM2 : Uint256
  strrTC : Bytes
  strrQID3 : Bytes
  strrHM5 : Bytes
  TC1 : Uint256
  QID3 : Uint256
  HM5 : Uint256
  carry4 : UInt64
  deriving DecidableEq

/-- `hex_to_uint256` into a variable. -/
def hexInto (hexStr : Bytes) (old : Uint256) : Uint256 := (hexToUint256 hexStr).getD old

/-- `rt_request`, which reads its three numbers from the command line. -/
def Statics.rtRequest (s : Statics) (userid password bio : Int32) : Statics :=
  { s with client := { s.client with userid, password, bio } }

/-- `request_send`: what `send_data` holds afterwards, and is sent. -/
def Statics.requestSend (s : Statics) (sendData : Bytes) : Bytes :=
  let idStr := cstr " " ++ percentD s.client.userid
  let bioStr := cstr " " ++ percentD s.client.bio
  let pwStr := cstr " " ++ percentD s.client.password
  sendData ++ idStr ++ pwStr ++ bioStr

/-- `register_proc`. -/
def Statics.registerProc (s : Statics) (second third forth fifth sixth seventh eighth : Bytes) : Statics :=
  let s := { s with
    A := hexInto second s.A, d := hexInto third s.d, N := hexInto forth s.N, x := hexInto fifth s.x,
    pk := hexInto sixth s.pk, L := hexInto seventh s.L, N1 := hexInto eighth s.N1 }
  { s with client := { s.client with A := s.A, d := s.d, N := s.N, x := s.x, pk := s.pk, L := s.L, N1 := s.N1 } }

namespace Chip

variable (Γ : Chip)

/-- `gm_sm3` and `sm3_to_uint256`. -/
def sm3 (input : Bytes) : Uint256 := sm3ToUint256 (CSm3.gmSm3 Γ.shr32 Γ.stack input)

/-- `chebyshev_Tn`, whose `carry4` is state. -/
def chebyshev (s : Statics) (n x p : Uint256) : Option (Uint256 × Statics) := do
  let (out, carry4) ← chebyshevTn Γ.fuel s.carry4 n x p
  return (out.Tn, { s with carry4 })

/-! ## `auth_pre` -/

/-- The pseudonym: the decimal texts of the user, of `L` and of the biometry as one number, hashed. -/
def pseudonym (client : Client) : Option Uint256 := do
  let LStr ← uint256ToDecstr client.L
  let concatStr := percentD client.userid ++ LStr ++ percentD client.bio
  let bytes ← bigIntBytes Γ.fuel concatStr
  return Γ.sm3 bytes

/-- The parameter that the self-authentication compares. -/
def parameterA (client : Client) : Uint256 :=
  (Γ.sm3 (percentD client.userid ++ percentD client.password ++ percentD client.bio)).xor client.L

/-- `auth_pre`: what it writes to its argument, `none` where the self-authentication fails and it returns early. -/
def authPre (s : Statics) : Option (Option AuthParam × List Verdict × Statics) := do
  let PID ← Γ.pseudonym s.client
  let s := { s with A := Γ.parameterA s.client }
  let selfAuth := uint256Equal s.A s.client.A
  if selfAuth then
    let s := { s with client := { s.client with PID } }
    let (QID, s) ← Γ.chebyshev s s.client.d PID.half s.client.N1
    let s := { s with client := { s.client with QID } }
    let (QPW, s) ← Γ.chebyshev s s.client.d (intToUint256 s.client.password) s.client.N1
    let (QA, s) ← Γ.chebyshev s s.client.d s.A.half s.client.N1
    return (some ⟨QA, QPW, QID⟩, [(.selfAuth, selfAuth)], s)
  else return (none, [(.selfAuth, selfAuth)], s)

/-! ## `Sharedkey_Gen` -/

/-- The lines that read the message. -/
def readGen (recvData : Bytes) (s : Statics) : Statics :=
  let s := { s with
    strQID1 := sscanf recvData 1 s.strQID1, strM1 := sscanf recvData 2 s.strM1, strHM21 := sscanf recvData 3 s.strHM21 }
  { s with QID1 := hexInto s.strQID1 s.QID1, M1 := hexInto s.strM1 s.M1, HM2 := hexInto s.strHM21 s.HM2 }

/-- The hash of two numbers in a buffer of 64 bytes. -/
def sm3Pair (a b : Uint256) : Uint256 := Γ.sm3 (uint256Bytes a ++ uint256Bytes b)

/-- The hash of decimal texts one after the other, as bytes. -/
def sm3Decstr (ns : List Uint256) : Option Bytes := do
  let texts ← ns.mapM uint256ToDecstr
  return CSm3.gmSm3 Γ.shr32 Γ.stack texts.flatten

/-- `Sharedkey_Gen`, with the prime that it draws: what it writes to its argument. -/
def sharedkeyGen (recvData : Bytes) (temp3 : UInt64) (s : Statics) : Option (ShareParam × List Verdict × Statics) := do
  let s := readGen recvData s
  let HM21 := Γ.sm3Pair s.QID1 s.M1
  let tagHM2 := uint256Equal HM21 s.HM2
  let (TA, s) ← Γ.chebyshev s s.client.A.half s.client.pk s.client.N
  let s := { s with client := { s.client with TA } }
  let QID2 := s.QID1.xor TA
  let pseudonym := uint256Equal QID2 s.client.QID.half
  let a1 := s.M1.xor TA
  let b := ullToUint256 temp3
  let s := { s with client := { s.client with a1, b } }
  let N2 := b.xor TA
  let c := (bigAdd a1 b).1
  let (TC, s) ← Γ.chebyshev s c s.client.pk s.client.N
  let (TA1, s) ← Γ.chebyshev s a1 s.client.pk s.client.N
  let (TB, s) ← Γ.chebyshev s b s.client.pk s.client.N
  let s := { s with client := { s.client with TA1, TB } }
  let outputHash ← Γ.sm3Decstr [N2, TC, QID2]
  return (⟨N2, TC, QID2, sm3ToUint256 outputHash⟩, [(.tagHM2, tagHM2), (.pseudonym, pseudonym)], s)

/-! ## `Sharedkey_Gen2` -/

/-- The lines that read the message. -/
def readGen2 (recvData : Bytes) (s : Statics) : Statics :=
  let s := { s with
    strrTC := sscanf recvData 1 s.strrTC, strrQID3 := sscanf recvData 2 s.strrQID3, strrHM5 := sscanf recvData 3 s.strrHM5 }
  { s with TC1 := hexInto s.strrTC s.TC1, QID3 := hexInto s.strrQID3 s.QID3, HM5 := hexInto s.strrHM5 s.HM5 }

/-- The comparison of the random numbers. -/
def nonceTest (TA1 TB1 TC1 N : Uint256) : Bool :=
  let ta2 := uint256Mulmod TA1 TA1 N
  let tb2 := uint256Mulmod TB1 TB1 N
  let tc12 := uint256Mulmod TC1 TC1 N
  let tmp1 := uint256Addmod ta2 tb2 N
  let left := uint256Addmod tmp1 tc12 N
  let tmp1 := uint256Mulmod TA1 TB1 N
  let tmp2 := uint256Mulmod tmp1 TC1 N
  let two := setUint256 0 0 0 0 0 0 0 2
  let tmp1 := uint256Mulmod tmp2 two N
  let one := setUint256 0 0 0 0 0 0 0 1
  let right := uint256Addmod tmp1 one N
  uint256Equal left right

/-- `Sharedkey_Gen2`: the key. -/
def sharedkeyGen2 (recvData : Bytes) (s : Statics) : Option (Bytes × List Verdict × Statics) := do
  let s := readGen2 recvData s
  let HM51 := Γ.sm3Pair s.TC1 s.QID3
  let tagHM5 := uint256Equal HM51 s.HM5
  let (TA1, s) ← Γ.chebyshev s s.client.a1 s.client.pk s.client.N
  let s := { s with N := s.client.N }
  let nonce := nonceTest TA1 s.client.TB s.TC1 s.N
  let KS ← Γ.sm3Decstr [s.client.a1, s.client.b, s.client.TA]
  return (KS, [(.tagHM5, tagHM5), (.nonce, nonce)], s)

end Chip

end AuthVideo
