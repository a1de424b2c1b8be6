import AuthVideo.Cipher.Tables
import AuthVideo.Python

/-!
# ZUC-256 of the simulation

The class `ZUC256` as `test6.py` and `dec_error.py` hold it. Its integers are Python's, so naturals here, cut to 31 or 32 bits
where the code cuts them.
-/

namespace AuthVideo

/-- A string of bytes. -/
abbrev Bytes := List UInt8

namespace PyZuc

/-- `P31`. -/
def P31 : Nat := 0x7FFFFFFF

/-- `rol32`. -/
def rol32 (x n : Nat) : Nat :=
  let x := x &&& 0xFFFFFFFF
  ((x <<< n) &&& 0xFFFFFFFF) ||| (x >>> (32 - n))

/-- `add31`. -/
def add31 (a b : Nat) : Nat :=
  let x := a + b
  let x := x + (x >>> 31)
  x &&& P31

/-- `mul31`. -/
def mul31 (a n : Nat) : Nat := ((a <<< n) ||| (a >>> (31 - n))) &&& P31

/-- `L1`. -/
def L1 (x : Nat) : Nat := x ^^^ rol32 x 2 ^^^ rol32 x 10 ^^^ rol32 x 18 ^^^ rol32 x 24

/-- `L2`. -/
def L2 (x : Nat) : Nat := x ^^^ rol32 x 8 ^^^ rol32 x 14 ^^^ rol32 x 22 ^^^ rol32 x 30

/-- An entry of a table. -/
def entry (t : Array UInt8) (i : Nat) : Nat := (t.getD i 0).toNat

/-- `S_func`. -/
def sFunc (x : Nat) : Nat :=
  let b0 := entry s1 (x &&& 0xFF)
  let b1 := entry s0 ((x >>> 8) &&& 0xFF)
  let b2 := entry s1 ((x >>> 16) &&& 0xFF)
  let b3 := entry s0 ((x >>> 24) &&& 0xFF)
  b0 ||| (b1 <<< 8) ||| (b2 <<< 16) ||| (b3 <<< 24)

/-- The attributes `s`, `R1` and `R2` of a `ZUC256`. -/
structure State where
  s : Vector Nat 16
  R1 : Nat
  R2 : Nat
  deriving DecidableEq, Repr

/-- `_load2`. -/
def load2 (a b c d : Nat) : Nat := ((a <<< 23) ||| ((b &&& 0x7F) <<< 16) ||| (c <<< 8) ||| d) &&& 0x7FFFFFFF

/-- `_bit_reorg`. -/
def bitReorg (z : State) : Nat × Nat × Nat × Nat :=
  let s := z.s
  let x0 := ((s[15] <<< 1) &&& 0xFFFF0000) ||| (s[14] &&& 0xFFFF)
  let x1 := ((s[11] <<< 16) &&& 0xFFFF0000) ||| ((s[9] >>> 15) &&& 0xFFFF)
  let x2 := ((s[7] <<< 16) &&& 0xFFFF0000) ||| ((s[5] >>> 15) &&& 0xFFFF)
  let x3 := ((s[2] <<< 16) &&& 0xFFFF0000) ||| ((s[0] >>> 15) &&& 0xFFFF)
  (x0, x1, x2, x3)

/-- `_F`: the output and the new registers. -/
def F (z : State) (x0 x1 x2 : Nat) : Nat × State :=
  let w := ((x0 ^^^ z.R1) + z.R2) &&& 0xFFFFFFFF
  let w1 := (z.R1 + x1) &&& 0xFFFFFFFF
  let w2 := (z.R2 ^^^ x2) &&& 0xFFFFFFFF
  let tmp := ((w1 <<< 16) ||| (w2 >>> 16)) &&& 0xFFFFFFFF
  let tmp := L1 tmp
  let R1 := sFunc tmp
  let tmp2 := ((w2 <<< 16) ||| (w1 >>> 16)) &&& 0xFFFFFFFF
  let tmp2 := L2 tmp2
  let R2 := sFunc tmp2
  (w &&& 0xFFFFFFFF, { z with R1, R2 })

/-- The sum that both feedbacks share. -/
def feedback (s : Vector Nat 16) : Nat :=
  let s16 := add31 s[0] (mul31 s[0] 8)
  let s16 := add31 s16 (mul31 s[4] 20)
  let s16 := add31 s16 (mul31 s[10] 21)
  let s16 := add31 s16 (mul31 s[13] 17)
  add31 s16 (mul31 s[15] 15)

/-- The cells move down by one and the last one is new. -/
def shift (s : Vector Nat 16) (s16 : Nat) : Vector Nat 16 :=
  #v[s[1], s[2], s[3], s[4], s[5], s[6], s[7], s[8], s[9], s[10], s[11], s[12], s[13], s[14], s[15], s16]

/-- `_lfsr_init`. -/
def lfsrInit (z : State) (u : Nat) : State := { z with s := shift z.s (add31 (feedback z.s) u) }

/-- `_lfsr_work`. -/
def lfsrWork (z : State) : State := { z with s := shift z.s (feedback z.s) }

/-- A round of the initialisation. -/
def initRound (z : State) : State :=
  let (x0, x1, x2, _) := bitReorg z
  let (w, z) := F z x0 x1 x2
  let w := (w >>> 1) &&& 0x7FFFFFFF
  lfsrInit z w

/-- A byte of a key or an IV. -/
def byteAt (b : Bytes) (i : Nat) : Nat := (b.getD i 0).toNat

/-- The cells that `_init_state` loads. -/
def loadState (key iv : Bytes) : State :=
  let k := byteAt key
  let v := byteAt iv
  let d := entry d2
  ⟨#v[load2 (k 0) (d 0) (k 16) (k 24),
      load2 (k 1) (d 1) (k 17) (k 25),
      load2 (k 2) (d 2) (k 18) (k 26),
      load2 (k 3) (d 3) (k 19) (k 27),
      load2 (k 4) (d 4) (k 20) (k 28),
      load2 (k 5) (d 5) (k 21) (k 29),
      load2 (k 6) (d 6) (k 22) (k 30),
      load2 (k 7) (d 7) (v 0) (v 8),
      load2 (k 8) (d 8) (v 1) (v 9),
      load2 (k 9) (d 9) (v 2) (v 10),
      load2 (k 10) (d 10) (v 3) (v 11),
      load2 (k 11) (d 11) (v 4) (v 12),
      load2 (k 12) (d 12) (v 5) (v 13),
      load2 (k 13) (d 13) (v 6) (v 14),
      load2 (k 14) (d 14) (v 7) (v 15),
      load2 (k 15) (d 15) (k 23) (k 31)], 0, 0⟩

/-- `_init_state`, on a key of 32 bytes and an IV of 16. -/
def initState (key iv : Bytes) : State :=
  let z := (List.range 32).foldl (fun z _ => initRound z) (loadState key iv)
  let (x0, x1, x2, _) := bitReorg z
  let (_, z) := F z x0 x1 x2
  lfsrWork z

/-- `ZUC256(key, iv)`. The constructor takes an IV of 25 bytes and `_init_state` then raises. -/
def ZUC256 (key iv : Bytes) : Except PyError State :=
  if key.length ≠ 32 then .error .valueError
  else if iv.length ≠ 16 ∧ iv.length ≠ 25 then .error .valueError
  else if iv.length = 16 then .ok (initState key iv)
  else .error .valueError

/-- `keystream_word`. -/
def keystreamWord (z : State) : Nat × State :=
  let (x0, x1, x2, x3) := bitReorg z
  let (w, z) := F z x0 x1 x2
  let out := w ^^^ x3
  (out &&& 0xFFFFFFFF, lfsrWork z)

/-- `to_bytes(4, "big")`. -/
def toBytes4 (w : Nat) : Bytes := [.ofNat (w >>> 24), .ofNat (w >>> 16), .ofNat (w >>> 8), .ofNat w]

/-- The loop of `keystream_bytes`. -/
def keystreamWords : Nat → State → Bytes
  | 0, _ => []
  | words + 1, z =>
    let (w, z) := keystreamWord z
    toBytes4 w ++ keystreamWords words z

/-- `keystream_bytes`. -/
def keystreamBytes (z : State) (n : Nat) : Bytes := (keystreamWords ((n + 3) / 4) z).take n

/-- `zuc256_keystream`. -/
def zuc256Keystream (key iv : Bytes) (nbytes : Nat) : Except PyError Bytes := do
  let z ← ZUC256 key iv
  return keystreamBytes z nbytes

end PyZuc

end AuthVideo
