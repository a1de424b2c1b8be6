import AuthVideo.Sm2Curve
import AuthVideo.Python
import AuthVideo.Cipher.ZucPy
import AuthVideo.Lib.Radix
import AuthVideo.Lib.Segments
import Mathlib.Data.Nat.Log

/-!
# The encryption of the SM2 comparison

`compare_2_SM2.py`: the conversions between integers, bytes, bits and hexadecimal digits, the key derivation, and the encryption and
decryption on top of them. Bits and hexadecimal digits are texts. The hash of `gmssl` is a parameter, and so is the number `k` that
`encry_sm2` draws. The logarithms of the script are exact.
-/

namespace AuthVideo

namespace Sm2

/-! ## Numerals -/

/-- The value of a hexadecimal digit, 16 for any other character. -/
def digitValue (c : Char) : Nat :=
  if '0' ≤ c ∧ c ≤ '9' then c.toNat - 48
  else if 'a' ≤ c ∧ c ≤ 'f' then c.toNat - 87
  else if 'A' ≤ c ∧ c ≤ 'F' then c.toNat - 55
  else 16

/-- A text of digits below a base. -/
def IsNumeral (base : Nat) (s : Text) : Prop := ∀ c ∈ s, digitValue c < base

instance (base : Nat) (s : Text) : Decidable (IsNumeral base s) := inferInstanceAs (Decidable (∀ c ∈ s, _))

/-- `sm3.sm3_hash` of `gmssl`: a function from bytes to texts of 64 hexadecimal digits. -/
structure Sm3 where
  hash : Bytes → Text
  length_hash : ∀ m, (hash m).length = 64
  isNumeral_hash : ∀ m, IsNumeral 16 (hash m)

/-- The number of a text of digits. -/
def numeralValue (base : Nat) (s : Text) : Nat := Radix.value base (s.map digitValue)

/-- `eval('0x' + s)` and `eval('0b' + s)`, on a text of digits. -/
def evalNumeral (base : Nat) (s : Text) : Except Error Nat :=
  if s ≠ [] ∧ IsNumeral base s then .ok (numeralValue base s) else .error .syntaxError

/-- `s.rjust(width, '0')`. -/
def rjust (width : Nat) (s : Text) : Text := List.replicate (width - s.length) '0' ++ s

/-- `bytes([eval('0b' + s[i*width : i*width+width])])` for each `i` below `k`, and the same with `'0x'`. -/
def evalBytes (base width k : Nat) (s : Text) : Except Error Bytes :=
  (List.range k).mapM fun i => do
    let v ← evalNumeral base (Segments.slice s (i * width) (i * width + width))
    return UInt8.ofNat v

/-! ## Conversions -/

/-- `int_to_bytes`. The text `hex` of a negative number has an `x` behind its sign. -/
def intToBytes (x : Int) (k : Nat) : Except Error Bytes :=
  if 256 ^ k ≤ x then .error (.exception "无法实现整数到字节串的转换，目标字节串长度过短！")
  else if x < 0 then .error .syntaxError
  else evalBytes 16 2 k (rjust (k * 2) (Nat.toDigits 16 x.toNat))

/-- `bytes_to_int`. -/
def bytesToInt (M : Bytes) : Nat :=
  let k := M.length
  (List.range k).reverse.foldl (fun x i => x + 256 ^ (k - 1 - i) * (M.getD i 0).toNat) 0

/-- `bits_to_bytes`. -/
def bitsToBytes (s : Text) : Except Error Bytes :=
  let k := (s.length + 7) / 8
  evalBytes 2 8 k (rjust (k * 8) s)

/-- `bytes_to_bits`. -/
def bytesToBits (M : Bytes) : Text := M.flatMap fun i => rjust 8 (Nat.toDigits 2 i.toNat)

/-- The prime of the field. -/
def fieldPrime : Nat := 0x8542D69E4C044F18E8B92435BF6FF7DE457283915C45517D722EDB8B08F1DFC3

/-- `fielde_to_bytes`. -/
def fieldeToBytes (e : Int) : Except Error Bytes :=
  let q := fieldPrime
  let t := Nat.clog 2 q
  let l := (t + 7) / 8
  intToBytes e l

/-- `bytes_to_fielde`. -/
def bytesToFielde (M : Bytes) : Nat := bytesToInt M

/-- `point_to_bytes`. -/
def pointToBytes (P : Int × Int) : Except Error Bytes := do
  let (xp, yp) := P
  let x ← fieldeToBytes xp
  let y ← fieldeToBytes yp
  return [0x04] ++ x ++ y

/-- `bytes_to_point`. -/
def bytesToPoint (s : Bytes) : Except Error (Int × Int) :=
  if s.length % 2 = 0 then .error (.exception "无法实现字节串到点的转换，请检查字节串是否为未压缩形式！")
  else
    let l := (s.length - 1) / 2
    let PC := s.headD 0
    if PC ≠ 4 then .error (.exception "无法实现字节串到点的转换，请检查PC是否为b'04'！")
    else
      let x := Segments.slice s 1 (l + 1)
      let y := Segments.slice s (l + 1) (2 * l + 1)
      .ok (bytesToFielde x, bytesToFielde y)

/-- `fielde_to_bits`. -/
def fieldeToBits (a : Int) : Except Error Text := do
  let aBytes ← fieldeToBytes a
  return bytesToBits aBytes

/-- `point_to_bits`. -/
def pointToBits (P : Int × Int) : Except Error Text := do
  let pBytes ← pointToBytes P
  return bytesToBits pBytes

/-- `int_to_bits`. -/
def intToBits (x : Nat) : Text :=
  let xBits := Nat.toDigits 2 x
  let k := (xBits.length + 7) / 8
  rjust (k * 8) xBits

/-- `bytes_to_hex`. -/
def bytesToHex (m : Bytes) : Text := m.flatMap fun i => rjust 2 (Nat.toDigits 16 i.toNat)

/-- `bits_to_hex`. -/
def bitsToHex (s : Text) : Except Error Text := do
  let sBytes ← bitsToBytes s
  return bytesToHex sBytes

/-- `hex_to_bits`. -/
def hexToBits (h : Text) : Except Error Text := do
  let bs ← h.mapM fun i => do
    let v ← evalNumeral 16 [i]
    return rjust 4 (Nat.toDigits 2 v)
  return bs.flatten

/-- `hex_to_bytes`. -/
def hexToBytes (h : Text) : Except Error Bytes := do
  let hBits ← hexToBits h
  bitsToBytes hBits

/-- `fielde_to_hex`. -/
def fieldeToHex (e : Int) : Except Error Text := do
  let hBytes ← fieldeToBytes e
  return bytesToHex hBytes

/-- `bytes(M, encoding='ascii')`. -/
def asciiBytes (M : Text) : Except Error Bytes :=
  if M.all fun c => c.toNat < 128 then .ok (M.map fun c => UInt8.ofNat c.toNat) else .error .unicodeError

/-- `str(M_bytes, encoding='ascii')`. -/
def asciiText (M : Bytes) : Except Error Text :=
  if M.all fun b => b.toNat < 128 then .ok (M.map fun b => Char.ofNat b.toNat) else .error .unicodeError

/-! ## The key derivation -/

/-- The text of `KDF` for its counter `ct`. -/
def Sm3.kdfBlock (H : Sm3) (Z : Text) (ct : Nat) : Except Error Text := do
  let sBytes ← bitsToBytes (Z ++ rjust 32 (intToBits ct))
  hexToBits (H.hash sBytes)

/-- `KDF`. -/
def Sm3.kdf (H : Sm3) (Z : Text) (klen : Int) : Except Error Text :=
  let v := 256
  if (2 ^ 32 - 1) * v ≤ klen then .error (.exception "密钥派生函数KDF出错，请检查klen的大小！")
  else do
    let l := if klen % v = 0 then klen / v else klen / v + 1
    let Ha ← (List.range l.toNat).mapM fun i => H.kdfBlock Z (i + 1)
    if klen % v ≠ 0 then
      match Ha.getLast? with
      | none => .error .indexError
      | some last => .ok (Ha.dropLast ++ [last.take (klen - v * (klen / v)).toNat]).flatten
    else .ok Ha.flatten

/-! ## Encryption and decryption -/

/-- `if c: raise Exception(text)`. -/
def raiseIf (c : Bool) (text : String) : Except Error Unit := if c then .error (.exception text) else .ok ()

/-- The parameters `(p, a, b, h, G, n)`. -/
structure Args where
  p : Nat
  a : Nat
  b : Nat
  h : Nat
  G : Int × Int
  n : Nat

/-- `on_curve`. -/
def onCurve (args : Args) (P : Int × Int) : Bool :=
  P.2 ^ 2 % args.p = (P.1 ^ 3 % args.p + args.a * P.1 + args.b) % args.p

/-- A tuple where the result of `mult_point` may be the number 0. -/
def coordinates : Point → Except Error (Int × Int)
  | none => .error .typeError
  | some P => .ok P

/-- `encry_sm2`, with the number `k` that it draws. -/
def Sm3.encrySm2 (H : Sm3) (args : Args) (PB : Int × Int) (M : Text) (k : Nat) : Except Error Text := do
  let MBytes ← asciiBytes M
  let C1 ← coordinates (← multPoint (some args.G) k args.p args.a)
  let C1Bits ← pointToBits C1
  let S ← multPoint (some PB) args.h args.p args.a
  raiseIf (S = none) "计算得到的S是无穷远点"
  let (x2, y2) ← coordinates (← multPoint (some PB) k args.p args.a)
  let x2Bits ← fieldeToBits x2
  let y2Bits ← fieldeToBits y2
  let MHex := bytesToHex MBytes
  let klen := 4 * MHex.length
  let t ← H.kdf (x2Bits ++ y2Bits) klen
  raiseIf ((← evalNumeral 2 t) = 0) "KDF返回了全零串，请检查KDF算法！"
  let C2 := (← evalNumeral 16 MHex) ^^^ (← evalNumeral 2 t)
  let x2Bytes ← bitsToBytes x2Bits
  let y2Bytes ← bitsToBytes y2Bits
  let C3 := H.hash (x2Bytes ++ MBytes ++ y2Bytes)
  let C1Hex ← bitsToHex C1Bits
  let C2Hex := Nat.toDigits 16 C2
  return C1Hex ++ C2Hex ++ C3

/-- `decry_sm2`. -/
def Sm3.decrySm2 (H : Sm3) (args : Args) (dB : Nat) (C : Text) : Except Error Text := do
  let l := Nat.clog 256 args.p
  let hexL1 := (2 * l + 1) * 2
  let CBytes ← hexToBytes C
  let C1 ← bytesToPoint (CBytes.take (2 * l + 1))
  raiseIf (!onCurve args C1) "在解密算法B1中，取得的C1不在椭圆曲线上！"
  let _ ← fieldeToHex C1.1
  let _ ← fieldeToHex C1.2
  let S ← multPoint (some C1) args.h args.p args.a
  raiseIf (S = none) "在解密算法B2中，S是无穷远点！"
  let (xS, yS) ← coordinates S
  let _ ← fieldeToHex xS
  let _ ← fieldeToHex yS
  let (x2, y2) ← coordinates (← multPoint (some C1) dB args.p args.a)
  let x2Hex ← fieldeToHex x2
  let y2Hex ← fieldeToHex y2
  let hexL3 : Nat := 64
  let hexL2 : Int := (C.length : Int) - hexL1 - hexL3
  let klen := hexL2 * 4
  let x2Bits ← hexToBits x2Hex
  let y2Bits ← hexToBits y2Hex
  let t ← H.kdf (x2Bits ++ y2Bits) klen
  raiseIf ((← evalNumeral 2 t) = 0) "在解密算法B4中，得到的t是全0串！"
  let tHex ← bitsToHex t
  let C2Hex := Segments.slice C hexL1 (C.length - hexL3)
  let M1 := (← evalNumeral 16 C2Hex) ^^^ (← evalNumeral 16 tHex)
  let M1Hex := rjust hexL2.toNat (Nat.toDigits 16 M1)
  let M1Bits ← hexToBits M1Hex
  let cmpBytes ← bitsToBytes (x2Bits ++ M1Bits ++ y2Bits)
  let u := H.hash cmpBytes
  let C3Hex := C.drop (C.length - hexL3)
  raiseIf (u ≠ C3Hex) "在解密算法B6中，计算的u与C3不同！"
  let MBytes ← hexToBytes M1Hex
  asciiText MBytes

/-- `get_args`. -/
def getArgs : Args where
  p := 0x8542D69E4C044F18E8B92435BF6FF7DE457283915C45517D722EDB8B08F1DFC3
  a := 0x787968B4FA32C3FD2417842E73BBFEFF2F3C848B6831D7E0EC65228B3937E498
  b := 0x63E4C6D3B23B0C849CF84241484BFE48F61D59A5B16BA06E6E12D1DA27C5249A
  h := 1
  G := (0x421DEBD61B62EAB6746434EBC3CC315E32220B3BADD50BDC4C4E6C147FEDD43D,
    0x0680512BCBB42C07D47349D2153B70C4E5D7FDFCBFA36EA1A85841B9E46E09A2)
  n := 0x8542D69E4C044F18E8B92435BF6FF7DD297720630485628D5AE74EE7C32E79B7

end Sm2

end AuthVideo
