import AuthVideo.Board.Text

/-!
# Return codes and buffers of the conversions

`hex_to_uint256` with the codes that it returns and with its writes in their order, and the lines of `auth_pre` that divide a decimal
text in the buffers `temp` and `next`.
-/

namespace AuthVideo

/-! ## `hex_to_uint256` -/

/-- The sign that `strtoul` takes, and what follows it. -/
def signed : Bytes → Bool × Bytes
  | 45 :: t => (true, t)
  | 43 :: t => (false, t)
  | t => (false, t)

/-- What follows the `0x` that `strtoul` takes in base 16 where a digit stands behind it. -/
def behind0x : Bytes → Bytes
  | 48 :: x :: t => if (x = 120 ∨ x = 88) ∧ (t.head?.bind isxdigit).isSome then t else 48 :: x :: t
  | t => t

/-- `strtoul` in base 16: the number, the largest one where it does not fit, and the text at `endptr`. -/
def strtoul (segment : Bytes) : UInt32 × Bytes :=
  let t := signed (segment.dropWhile isspace)
  let u := behind0x t.2
  let digits := u.takeWhile fun c => (isxdigit c).isSome
  if digits = [] then (0, segment)
  else
    let n := digits.foldl (fun n c => 16 * n + ((isxdigit c).getD 0).toNat) 0
    (if 2 ^ 32 ≤ n then 0xFFFFFFFF else if t.1 then -UInt32.ofNat n else UInt32.ofNat n, u.drop digits.length)

/-- The array with another word at `i`. -/
def Limbs.set {n : Nat} (a : Limbs n) (i : Nat) (w : UInt32) : Limbs n := ⟨a.words.set i w, by rw [List.length_set, a.length_words]⟩

/-- The loop of `hex_to_uint256` over the turns that are left: what it returns, and `result`. -/
def hexToUint256Loop (hexStr : Bytes) : List Nat → Uint256 → Int × Uint256
  | [], result => (0, result)
  | i :: is, result =>
    let segment := (hexStr.drop (i * 8)).take 8
    let parsed := strtoul segment
    if parsed.2 ≠ [] then (-3, result) else hexToUint256Loop hexStr is (result.set (7 - i) parsed.1)

/-- `hex_to_uint256`: what it returns, and what `result` holds afterwards. -/
def hexToUint256Ret (hexStr : Bytes) (result : Uint256) : Int × Uint256 :=
  if hexStr.length ≠ 64 then (-1, result)
  else if ¬hexStr.all fun c => (isxdigit c).isSome then (-2, result)
  else hexToUint256Loop hexStr (List.range 8) result

/-! ## The division in `auth_pre` -/

/-- The two buffers of 128 characters. -/
structure DivBuffers where
  temp : Bytes
  next : Bytes

/-- A pointer into one of them. -/
inductive CharPtr where
  | temp (i : Nat)
  | next (i : Nat)

/-- The place in its buffer. -/
def CharPtr.index : CharPtr → Nat
  | .temp i => i
  | .next i => i

/-- `p++`. -/
def CharPtr.succ : CharPtr → CharPtr
  | .temp i => .temp (i + 1)
  | .next i => .next (i + 1)

/-- `*p`, `none` outside the buffer. -/
def DivBuffers.deref (b : DivBuffers) : CharPtr → Option UInt8
  | .temp i => b.temp[i]?
  | .next i => b.next[i]?

/-- The loop over `p`: each turn reads at `p` and writes at `outPtr`, an index into `next`. What it leaves: the buffers, `out_ptr` and
`carry`; `none` where it reads or writes outside them. -/
def divideLoop (fuel : Nat) (b : DivBuffers) (p : CharPtr) (outPtr : Nat) (carry : Int) : Option (DivBuffers × Nat × Int) :=
  match fuel with
  | 0 => none
  | fuel + 1 =>
    match b.deref p with
    | none => none
    | some c =>
      if c = 0 then some (b, outPtr, carry)
      else
        let digit := carry * 10 + ((c.toNat : Int) - 48)
        if outPtr < 255 then
          if outPtr < b.next.length then
            divideLoop fuel { b with next := b.next.set outPtr (.ofInt (48 + digit.tdiv 256)) } p.succ (outPtr + 1) (digit.tmod 256)
          else none
        else divideLoop fuel b p.succ outPtr (digit.tmod 256)

/-- `while (*ptr == '0') ptr++`. -/
def skipZeros (fuel : Nat) (b : DivBuffers) (ptr : CharPtr) : Option CharPtr :=
  match fuel with
  | 0 => none
  | fuel + 1 =>
    match b.deref ptr with
    | none => none
    | some c => if c = 48 then skipZeros fuel b ptr.succ else some ptr

/-- The state of the loop over `ptr`: the buffers, `ptr`, and `big_int_bytes` up to `byte_len`. -/
structure DivState where
  buffers : DivBuffers
  ptr : CharPtr
  bigIntBytes : Bytes

/-- A turn of the loop over `ptr`. No pointer takes more than 129 steps before it leaves its buffer. -/
def divideTurn (s : DivState) : Option (DivState ⊕ Bytes) := do
  let c ← s.buffers.deref s.ptr
  if c = 0 then return .inr s.bigIntBytes
  else
    let (b, outPtr, carry) ← divideLoop 129 s.buffers s.ptr 0 0
    if outPtr < b.next.length then
      let b := { b with next := b.next.set outPtr 0 }
      let bigIntBytes := if s.bigIntBytes.length < 128 then s.bigIntBytes ++ [.ofInt carry] else s.bigIntBytes
      let ptr ← skipZeros 129 b (.next 0)
      let c ← b.deref ptr
      if c = 0 then return .inr bigIntBytes else return .inl ⟨b, ptr, bigIntBytes⟩
    else none

/-- The loop that reverses `big_int_bytes`, over the turns that are left. -/
def reverseLoop (byteLen : Nat) : List Nat → Bytes → Bytes
  | [], bigIntBytes => bigIntBytes
  | i :: is, bigIntBytes =>
    let tmp := bigIntBytes[i]!
    let bigIntBytes := bigIntBytes.set i (bigIntBytes[byteLen - 1 - i]!)
    reverseLoop byteLen is (bigIntBytes.set (byteLen - 1 - i) tmp)

/-- The lines of `auth_pre` from `byte_len = 0` on, with `temp` behind the `strcpy` and fuel for the loop over `ptr`. -/
def decimalToBytes (fuel : Nat) (b : DivBuffers) : Option Bytes := do
  let bigIntBytes ← Loop.iterate divideTurn fuel ⟨b, .temp 0, []⟩
  return reverseLoop bigIntBytes.length (List.range (bigIntBytes.length / 2)) bigIntBytes

end AuthVideo
