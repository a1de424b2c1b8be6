import AuthVideo.Cipher.ZucPy

/-!
# ZUC-256 of `test12.py`

The class `ZUC256` of the script that encrypts files. It masks neither the sums of a round nor its words, so they can be wider than
32 bits. What it shares with `test6.py`, text for text, is taken from there.
-/

namespace AuthVideo

namespace Test12Zuc

open PyZuc (State add31 mul31 sFunc entry load2 bitReorg feedback shift byteAt toBytes4 P31)

/-- The exceptions of the class. -/
inductive Raised where
  | indexError
  | zeroDivisionError
  | overflowError
  deriving DecidableEq, Repr

/-- `rol32`. -/
def rol32 (x n : Nat) : Nat := ((x <<< n) ||| (x >>> (32 - n))) &&& 0xFFFFFFFF

/-- `L1`. -/
def L1 (x : Nat) : Nat := x ^^^ rol32 x 2 ^^^ rol32 x 10 ^^^ rol32 x 18 ^^^ rol32 x 24

/-- `L2`. -/
def L2 (x : Nat) : Nat := x ^^^ rol32 x 8 ^^^ rol32 x 14 ^^^ rol32 x 22 ^^^ rol32 x 30

/-- The words that `_round` gives to `L1` and `L2`. -/
def mixed (z : State) : Nat × Nat :=
  let (_, x1, x2, _) := bitReorg z
  let w1 := z.R1 + x1
  let w2 := z.R2 ^^^ x2
  ((w1 <<< 16) ||| (w2 >>> 16), (w2 <<< 16) ||| (w1 >>> 16))

/-- `_round`: what it returns, and the new state. -/
def round (init : Bool) (z : State) : Nat × State :=
  let (x0, _, _, x3) := bitReorg z
  let w := (x0 ^^^ z.R1) + z.R2
  let R1 := sFunc (L1 (mixed z).1)
  let R2 := sFunc (L2 (mixed z).2)
  let s16 := feedback z.s
  let s16 := if init then add31 s16 ((w >>> 1) &&& P31) else s16
  (w ^^^ x3, ⟨shift z.s s16, R1, R2⟩)

/-- The loop of `_init` that loads the cells. -/
def loadCells (k iv : Bytes) : State :=
  ⟨Vector.ofFn fun i : Fin 16 => load2 (byteAt k i) (entry d2 i) (byteAt k (i + 16)) (byteAt iv (i % iv.length)), 0, 0⟩

/-- The rounds of `_init`. -/
def initState (k iv : Bytes) : State :=
  let z := (List.range 32).foldl (fun z _ => (round true z).2) (loadCells k iv)
  (round false z).2

/-- `ZUC256(key, iv)`. Nothing is checked; the first turn of the loop reads bytes 0 and 16 of the key, and then the IV. -/
def ZUC256 (key iv : Bytes) : Except Raised State :=
  if key.length < 17 then .error .indexError
  else if iv = [] then .error .zeroDivisionError
  else if key.length < 32 then .error .indexError
  else .ok (initState key iv)

/-- The loop of `keystream`. -/
def keystreamWords : Nat → State → Except Raised (Bytes × State)
  | 0, z => .ok ([], z)
  | words + 1, z => do
    let (w, z) := round false z
    if w < 2 ^ 32 then
      let (out, z) ← keystreamWords words z
      return (toBytes4 w ++ out, z)
    else .error .overflowError

/-- `keystream`. -/
def keystream (z : State) (n : Nat) : Except Raised (Bytes × State) := do
  let (out, z) ← keystreamWords ((n + 3) / 4) z
  return (out.take n, z)

end Test12Zuc

end AuthVideo
