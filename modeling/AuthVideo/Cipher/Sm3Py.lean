import AuthVideo.Cipher.Sm3C
import AuthVideo.Lib.BigEndian
import AuthVideo.Lib.Blocks
import Mathlib.Data.Nat.Bitwise

/-!
# SM3 of `compare_3_SM9.py`

The `sm3_hash` on bytes that the comparison script has of its own. Its integers are Python's, so naturals here.
-/

namespace AuthVideo

namespace PySm3

/-- `_rotl`. -/
def rotl (x n : Nat) : Nat :=
  let n := n &&& 31
  ((x <<< n) &&& 0xFFFFFFFF) ||| (x >>> (32 - n))

/-- `_P0`. -/
def P0 (x : Nat) : Nat := x ^^^ rotl x 9 ^^^ rotl x 17

/-- `_P1`. -/
def P1 (x : Nat) : Nat := x ^^^ rotl x 15 ^^^ rotl x 23

/-- The first `IV`. -/
def IV : Words8 Nat :=
  ⟨0x7380166f, 0x4914b2b9, 0x172442d7, 0xda8a0600, 0xa96f30bc, 0x163138aa, 0xe38dee4d, 0xb0fb0e4e⟩

/-- A turn of the loop over `W`. -/
def expand (W : List Nat) (j : Nat) : List Nat :=
  let w := fun j => W.getD j 0
  let p1 := P1 (w (j - 16) ^^^ w (j - 9) ^^^ rotl (w (j - 3)) 15)
  W.set j ((p1 ^^^ rotl (w (j - 13)) 7 ^^^ w (j - 6)) &&& 0xFFFFFFFF)

/-- `W` of a block: sixteen words, the list extended with zeros, the loop. -/
def schedule (block : Bytes) : List Nat :=
  let W := ((List.range 16).map fun j => BigEndian.decode ((block.drop (4 * j)).take 4)) ++ List.replicate (68 - 16) 0
  (List.range' 16 52).foldl expand W

/-- `WP`. -/
def scheduleP (W : List Nat) : List Nat :=
  (List.range 64).map fun j => (W.getD j 0 ^^^ W.getD (j + 4) 0) &&& 0xFFFFFFFF

/-- A turn of the loop over the registers. `(~E) & G` is what `G` has and `E` has not. -/
def round (W WP : List Nat) (r : Words8 Nat) (j : Nat) : Words8 Nat :=
  let Tj := if j < 16 then 0x79cc4519 else 0x7a879d8a
  let SS1 := rotl ((rotl r.A 12 + r.E + rotl Tj j) &&& 0xFFFFFFFF) 7
  let SS2 := SS1 ^^^ rotl r.A 12
  let FF := if j < 16 then r.A ^^^ r.B ^^^ r.C else (r.A &&& r.B) ||| (r.A &&& r.C) ||| (r.B &&& r.C)
  let GG := if j < 16 then r.E ^^^ r.F ^^^ r.G else (r.E &&& r.F) ||| Nat.ldiff r.G r.E
  let TT1 := (FF + r.D + SS2 + WP.getD j 0) &&& 0xFFFFFFFF
  let TT2 := (GG + r.H + SS1 + W.getD j 0) &&& 0xFFFFFFFF
  ⟨TT1, r.A, rotl r.B 9, r.C, P0 TT2, r.E, rotl r.F 19, r.G⟩

/-- The body of the loop over the blocks: the next `IV`. -/
def compress (IV : Words8 Nat) (block : Bytes) : Words8 Nat :=
  let W := schedule block
  let WP := scheduleP W
  IV.zipWith (· ^^^ ·) ((List.range 64).foldl (round W WP) IV)

/-- `buf`, with the length already in bytes. -/
def pad (msg lengthBytes : Bytes) : Bytes :=
  let buf := msg ++ [0x80]
  let buf := buf ++ List.replicate ((56 - (buf.length % 64 : Int)) % 64).toNat 0
  buf ++ lengthBytes

/-- `length_bits.to_bytes(8, 'big')`. `none` is its `OverflowError`. -/
def lengthBytes (msg : Bytes) : Option Bytes :=
  let lengthBits := msg.length * 8
  if lengthBits < 256 ^ 8 then some (BigEndian.encode 8 lengthBits) else none

/-- `sm3_hash`, with `none` for the `OverflowError`. -/
def sm3Hash (msg : Bytes) : Option Nat := do
  let length ← lengthBytes msg
  let IV := (Blocks.slices 64 (pad msg length)).foldl compress IV
  return IV.toList.foldl (fun result x => (result <<< 32) ||| x) 0

end PySm3

end AuthVideo
