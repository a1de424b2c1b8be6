import AuthVideo.Cipher.ZucTest12

/-!
# ZUC-256 of `test_time.py`

The class `ZUC256` of the timing script, which is that of `test12.py` with masks to 32 bits and with checks of the arguments. What the
two hold in common, text for text, is taken from there.
-/

namespace AuthVideo

namespace TimeZuc

open PyZuc (State add31 sFunc bitReorg feedback shift toBytes4 P31)
open Test12Zuc (loadCells)

/-- `rol32`. -/
def rol32 (x n : Nat) : Nat :=
  let x := x &&& 0xFFFFFFFF
  ((x <<< n) ||| (x >>> (32 - n))) &&& 0xFFFFFFFF

/-- `L1`. -/
def L1 (x : Nat) : Nat := (x ^^^ rol32 x 2 ^^^ rol32 x 10 ^^^ rol32 x 18 ^^^ rol32 x 24) &&& 0xFFFFFFFF

/-- `L2`. -/
def L2 (x : Nat) : Nat := (x ^^^ rol32 x 8 ^^^ rol32 x 14 ^^^ rol32 x 22 ^^^ rol32 x 30) &&& 0xFFFFFFFF

/-- `S`, the one of `test12.py` between two masks. -/
def S (x : Nat) : Nat := sFunc (x &&& 0xFFFFFFFF) &&& 0xFFFFFFFF

/-- The words that `_round` gives to `L1` and `L2`. -/
def mixed (z : State) : Nat × Nat :=
  let (_, x1, x2, _) := bitReorg z
  let w1 := (z.R1 + x1) &&& 0xFFFFFFFF
  let w2 := (z.R2 ^^^ x2) &&& 0xFFFFFFFF
  (((w1 <<< 16) ||| (w2 >>> 16)) &&& 0xFFFFFFFF, ((w2 <<< 16) ||| (w1 >>> 16)) &&& 0xFFFFFFFF)

/-- `_round`: what it returns, and the new state. -/
def round (init : Bool) (z : State) : Nat × State :=
  let (x0, _, _, x3) := bitReorg z
  let w := ((x0 ^^^ z.R1) + z.R2) &&& 0xFFFFFFFF
  let R1 := S (L1 (mixed z).1)
  let R2 := S (L2 (mixed z).2)
  let s16 := feedback z.s
  let s16 := if init then add31 s16 ((w >>> 1) &&& P31) else s16
  ((w ^^^ x3) &&& 0xFFFFFFFF, ⟨shift z.s s16, R1, R2⟩)

/-- The rounds of `_init`. -/
def initState (k iv : Bytes) : State :=
  let z := (List.range 32).foldl (fun z _ => (round true z).2) (loadCells k iv)
  (round false z).2

/-- `ZUC256(key, iv)`. -/
def ZUC256 (key iv : Bytes) : Except PyError State :=
  if key.length ≠ 32 then .error .valueError
  else if iv.length = 0 then .error .valueError
  else .ok (initState key iv)

/-- The loop of `keystream`. -/
def keystreamWords : Nat → State → Bytes × State
  | 0, z => ([], z)
  | words + 1, z =>
    let (w, z) := round false z
    let (out, z) := keystreamWords words z
    (toBytes4 w ++ out, z)

/-- `keystream`. -/
def keystream (z : State) (n : Nat) : Bytes × State :=
  let (out, z) := keystreamWords ((n + 3) / 4) z
  (out.take n, z)

end TimeZuc

end AuthVideo
