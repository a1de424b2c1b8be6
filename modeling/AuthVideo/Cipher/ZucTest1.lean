import AuthVideo.Cipher.ZucPy

/-!
# ZUC-256 of `test1.py`

The class `ZUC256` of the first simulation script. It takes both IV formats, and its `rol32` masks the word on each side on its
own. What it shares with the later scripts, text for text, is taken from there.
-/

namespace AuthVideo

namespace Test1Zuc

open PyZuc (State add31 mul31 sFunc entry load2 bitReorg lfsrInit lfsrWork byteAt loadState toBytes4)

/-- `rol32`. -/
def rol32 (x n : Nat) : Nat := ((x <<< n) &&& 0xFFFFFFFF) ||| ((x &&& 0xFFFFFFFF) >>> (32 - n))

/-- `L1`. -/
def L1 (x : Nat) : Nat := x ^^^ rol32 x 2 ^^^ rol32 x 10 ^^^ rol32 x 18 ^^^ rol32 x 24

/-- `L2`. -/
def L2 (x : Nat) : Nat := x ^^^ rol32 x 8 ^^^ rol32 x 14 ^^^ rol32 x 22 ^^^ rol32 x 30

/-- `_F`: the output and the new registers. -/
def F (z : State) (x0 x1 x2 : Nat) : Nat × State :=
  let w := ((x0 ^^^ z.R1) + z.R2) &&& 0xFFFFFFFF
  let w1 := (z.R1 + x1) &&& 0xFFFFFFFF
  let w2 := (z.R2 ^^^ x2) &&& 0xFFFFFFFF
  let tmp := ((w1 <<< 16) ||| (w2 >>> 16)) &&& 0xFFFFFFFF
  let tmp := L1 tmp
  let R1 := sFunc tmp
  let tmp2 := ((w2 <<< 16) ||| (w1 >>> 16)) &&& 0xFFFFFFFF
  let tmp2 := L2 tmp2
  let R2 := sFunc tmp2
  (w &&& 0xFFFFFFFF, { z with R1, R2 })

/-- `or_d_iv`. -/
def orDIv (dConst smallIv : Nat) : Nat := dConst ||| (smallIv &&& 0x3F)

/-- The cells that `_init_state` loads for an IV of 25 bytes. -/
def loadState25 (key iv : Bytes) : State :=
  let k := byteAt key
  let v := byteAt iv
  let d := entry d3
  let k31Hi := (k 31 >>> 4) &&& 0x0F
  let k31Lo := k 31 &&& 0x0F
  ⟨#v[load2 (k 0) (d 0) (k 21) (k 16),
      load2 (k 1) (d 1) (k 22) (k 17),
      load2 (k 2) (d 2) (k 23) (k 18),
      load2 (k 3) (d 3) (k 24) (k 19),
      load2 (k 4) (d 4) (k 25) (k 20),
      load2 (v 0) (orDIv (d 5) (v 17)) (k 5) (k 26),
      load2 (v 1) (orDIv (d 6) (v 18)) (k 6) (k 27),
      load2 (v 10) (orDIv (d 7) (v 19)) (k 7) (v 2),
      load2 (k 8) (orDIv (d 8) (v 20)) (v 3) (v 11),
      load2 (k 9) (orDIv (d 9) (v 21)) (v 12) (v 4),
      load2 (v 5) (orDIv (d 10) (v 22)) (k 10) (k 28),
      load2 (k 11) (orDIv (d 11) (v 23)) (v 6) (v 13),
      load2 (k 12) (orDIv (d 12) (v 24)) (v 7) (v 14),
      load2 (k 13) (d 13) (v 5) (v 8),
      load2 (k 14) (d 14 ||| k31Hi) (v 16) (v 9),
      load2 (k 15) (d 15 ||| k31Lo) (k 30) (k 29)], 0, 0⟩

/-- A round of the initialisation. -/
def initRound (z : State) : State :=
  let (x0, x1, x2, _) := bitReorg z
  let (w, z) := F z x0 x1 x2
  let w := (w >>> 1) &&& 0x7FFFFFFF
  lfsrInit z w

/-- `_init_state`, on a key of 32 bytes and an IV of 16 or 25. -/
def initState (key iv : Bytes) : State :=
  let z := if iv.length = 16 then loadState key iv else loadState25 key iv
  let z := (List.range 32).foldl (fun z _ => initRound z) z
  let (x0, x1, x2, _) := bitReorg z
  let (_, z) := F z x0 x1 x2
  lfsrWork z

/-- `ZUC256(key, iv)`. -/
def ZUC256 (key iv : Bytes) : Except PyError State :=
  if key.length ≠ 32 then .error .valueError
  else if iv.length ≠ 16 ∧ iv.length ≠ 25 then .error .valueError
  else .ok (initState key iv)

/-- `keystream_word`. -/
def keystreamWord (z : State) : Nat × State :=
  let (x0, x1, x2, x3) := bitReorg z
  let (w, z) := F z x0 x1 x2
  let out := w ^^^ x3
  (out &&& 0xFFFFFFFF, lfsrWork z)

/-- The loop of `keystream_bytes`. -/
def keystreamWords : Nat → State → Bytes × State
  | 0, z => ([], z)
  | words + 1, z =>
    let (w, z) := keystreamWord z
    let (out, z) := keystreamWords words z
    (toBytes4 w ++ out, z)

/-- `keystream_bytes`. -/
def keystreamBytes (z : State) (n : Nat) : Bytes × State :=
  let (out, z) := keystreamWords ((n + 3) / 4) z
  (out.take n, z)

end Test1Zuc

end AuthVideo
