import AuthVideo.BigNum
import AuthVideo.Cipher.ZucPy

/-!
# Texts of the boards

The strings of `protocol.c` and `tcp_part.c` and the functions that read numbers from them and write numbers into them. A string
is the list of its bytes before the zero that ends it. `long` has 32 bits and `char` has no sign on the chip.
-/

namespace AuthVideo

/-- A string literal. -/
def cstr (s : String) : Bytes := s.toList.map fun c => .ofNat c.toNat

/-- The bytes between 0 and 9. -/
def isdigit (c : UInt8) : Bool := 48 ≤ c && c ≤ 57

/-- The space and the five control characters of the C locale. -/
def isspace (c : UInt8) : Bool := c = 32 || (9 ≤ c && c ≤ 13)

/-! ## Scanning and printing -/

/-- What the conversions `%s` of `sscanf` find one after the other. -/
def scanned (s : Bytes) : List Bytes := (s.splitOnP isspace).filter (· ≠ [])

/-- The variable of the conversion at `i`, which keeps its text where the input ends before. -/
def sscanf (s : Bytes) (i : Nat) (old : Bytes) : Bytes := ((scanned s)[i]?).getD old

/-- `strtol` in base 10. Beyond the range of `long` it gives the nearest end. -/
def strtol (s : Bytes) : Int :=
  let number := fun s : Bytes => ((s.takeWhile isdigit).foldl (fun n c => 10 * n + (c.toNat - 48)) 0 : Nat)
  match s.dropWhile isspace with
  | 45 :: s => max (-2 ^ 31) (-(number s : Int))
  | 43 :: s => min (2 ^ 31 - 1) (number s)
  | s => min (2 ^ 31 - 1) (number s)

/-- `snprintf` with `%d`. -/
def percentD (n : Int32) : Bytes :=
  (if n < 0 then [45] else []) ++ (Nat.toDigits 10 n.toInt.natAbs).map fun c => .ofNat c.toNat

/-! ## Hexadecimal texts -/

/-- `isxdigit`, with the value that `strtoul` gives the digit. -/
def isxdigit (c : UInt8) : Option UInt32 :=
  if 48 ≤ c ∧ c ≤ 57 then some (c - 48).toUInt32
  else if 65 ≤ c ∧ c ≤ 70 then some (c - 55).toUInt32
  else if 97 ≤ c ∧ c ≤ 102 then some (c - 87).toUInt32
  else none

/-- `strtoul` in base 16 on digits that fit into a word. -/
def strtoul16 (segment : List UInt32) : UInt32 := segment.foldl (fun n digit => 16 * n + digit) 0

/-- `hex_to_uint256`: what it writes, `none` where it returns an error and writes nothing. -/
def hexToUint256 (hexStr : Bytes) : Option Uint256 :=
  if hexStr.length ≠ 64 then none
  else
    match hexStr.mapM isxdigit with
    | none => none
    | some digits => some ⟨(List.range 8).map fun j => strtoul16 ((digits.drop (8 * (7 - j))).take 8), by simp⟩

/-- A digit of `%X`. -/
def upperHex (n : UInt32) : UInt8 := if n < 10 then 48 + n.toUInt8 else 55 + n.toUInt8

/-- `%08X`. -/
def percent08X (w : UInt32) : Bytes := (List.range 8).map fun i => upperHex ((w >>> .ofNat (28 - 4 * i)) &&& 0xF)

/-- `uint256_to_hex` into a buffer that is large enough. -/
def uint256ToHex (value : Uint256) : Bytes := (value.words.reverse.map percent08X).flatten

/-! ## Words and bytes -/

/-- A word, its highest byte first. -/
def limbBytes (w : UInt32) : Bytes := [(w >>> 24).toUInt8, (w >>> 16).toUInt8, (w >>> 8).toUInt8, w.toUInt8]

/-- The words of a number in their order in the array, each with its highest byte first. -/
def uint256Bytes (a : Uint256) : Bytes := (a.words.map limbBytes).flatten

/-- `sm3_to_uint256`. -/
def sm3ToUint256 (output : Bytes) : Uint256 :=
  let b := fun i => (output.getD i 0).toUInt32
  ⟨(List.range 8).map fun i => (b (4 * i) <<< 24) ||| (b (4 * i + 1) <<< 16) ||| (b (4 * i + 2) <<< 8) ||| b (4 * i + 3), by simp⟩

/-- `int_to_uint256`. -/
def intToUint256 (value : Int32) : Uint256 := Limbs.zero.setLow value.toUInt32

/-- `ull_to_uint256`. -/
def ullToUint256 (value : UInt64) : Uint256 :=
  ⟨[value.toUInt32, (value >>> 32).toUInt32, 0, 0, 0, 0, 0, 0], rfl⟩

/-- `uint256_equal`. -/
def uint256Equal (a b : Uint256) : Bool := (a.words.zip b.words).all fun (u, v) => u = v

/-- The loops that mask a number word by word. -/
def Limbs.xor {n : Nat} (a b : Limbs n) : Limbs n :=
  ⟨List.zipWith (· ^^^ ·) a.words b.words, by rw [List.length_zipWith, a.length_words, b.length_words, Nat.min_self]⟩

/-- The two lowest words, in a number that is set to zero first. -/
def Limbs.half (a : Uint256) : Uint256 :=
  ⟨a.words.take 2 ++ List.replicate 6 0, by
    rw [List.length_append, List.length_take, a.length_words, List.length_replicate]
    rfl⟩

/-! ## Decimal texts -/

/-- The inner loop of `uint256_to_decstr`: `tp` divided by ten, and the remainder. -/
def divTenLoop : Nat → Bytes → Bytes × Nat
  | carry, [] => ([], carry)
  | carry, t :: tp =>
    let val := carry <<< 8 + t.toNat
    let (tp, carry) := divTenLoop (val % 10) tp
    (.ofNat (val / 10) :: tp, carry)

/-- A turn of the outer loop, on `tp` and on what `result` holds from its end. -/
def decstrTurn : Bytes × Bytes → Option ((Bytes × Bytes) ⊕ Bytes)
  | (tp, result) =>
    let (tp, carry) := divTenLoop 0 tp
    let result := .ofNat (48 + carry) :: result
    if tp.all (· = 0) then some (.inr result) else some (.inl (tp, result))

/-- `uint256_to_decstr` into a buffer of 80 bytes. Before its last byte `result` has room for 79 digits. -/
def uint256ToDecstr (value : Uint256) : Option Bytes := Loop.iterate decstrTurn 79 (uint256Bytes value, [])

/-- The inner loop of `auth_pre` that divides the digits at `ptr` by 256: the quotient, digit by digit, and the remainder. The
character that it writes stands no later than the one that it reads, so no character is read after it is overwritten. -/
def divByteLoop : Int → Bytes → Bytes × Int
  | carry, [] => ([], carry)
  | carry, p :: ps =>
    let digit := carry * 10 + ((p.toNat : Int) - 48)
    let (next, carry) := divByteLoop (digit.tmod 256) ps
    (.ofInt (48 + digit.tdiv 256) :: next, carry)

/-- A turn of the outer loop, on the text at `ptr` and on the bytes stored so far. -/
def bigIntTurn : Bytes × Bytes → Option ((Bytes × Bytes) ⊕ Bytes)
  | (ptr, bigIntBytes) =>
    if ptr = [] then some (.inr bigIntBytes)
    else
      let (next, carry) := divByteLoop 0 ptr
      let bigIntBytes := if bigIntBytes.length < 128 then bigIntBytes ++ [.ofInt carry] else bigIntBytes
      let ptr := next.dropWhile (· = 48)
      if ptr = [] then some (.inr bigIntBytes) else some (.inl (ptr, bigIntBytes))

/-- The lines of `auth_pre` that make bytes of the decimal text `temp`, the highest first, with fuel for their loop. -/
def bigIntBytes (fuel : Nat) (temp : Bytes) : Option Bytes := List.reverse <$> Loop.iterate bigIntTurn fuel (temp, [])

end AuthVideo
