import AuthVideo.Cipher.Tables
import AuthVideo.Cipher.ZucPy

/-!
# ZUC-256 of the boards

`zuc256.c`. Its integers are `uint8_t` and `uint32_t`; a sum wraps at 32 bits where no mask cuts it.
-/

namespace AuthVideo

namespace CZuc

/-- `P31`. -/
def P31 : UInt32 := 0x7FFFFFFF

/-- `rol32`. -/
def rol32 (x n : UInt32) : UInt32 := (x <<< n) ||| (x >>> (32 - n))

/-- `add31`. -/
def add31 (a b : UInt32) : UInt32 :=
  let x := a + b
  let x := x + (x >>> 31)
  x &&& P31

/-- `mul31`. -/
def mul31 (a n : UInt32) : UInt32 := ((a <<< n) ||| (a >>> (31 - n))) &&& P31

/-- `L1`. -/
def L1 (x : UInt32) : UInt32 := x ^^^ rol32 x 2 ^^^ rol32 x 10 ^^^ rol32 x 18 ^^^ rol32 x 24

/-- `L2`. -/
def L2 (x : UInt32) : UInt32 := x ^^^ rol32 x 8 ^^^ rol32 x 14 ^^^ rol32 x 22 ^^^ rol32 x 30

/-- An entry of a table, at a masked index. -/
def entry (t : Array UInt8) (i : UInt32) : UInt32 := (t.getD i.toNat 0).toUInt32

/-- `S_func`. -/
def sFunc (x : UInt32) : UInt32 :=
  let b0 := entry s1 (x &&& 0xFF)
  let b1 := entry s0 ((x >>> 8) &&& 0xFF)
  let b2 := entry s1 ((x >>> 16) &&& 0xFF)
  let b3 := entry s0 ((x >>> 24) &&& 0xFF)
  b0 ||| (b1 <<< 8) ||| (b2 <<< 16) ||| (b3 <<< 24)

/-- `load2`. -/
def load2 (a b c d : UInt8) : UInt32 :=
  ((a.toUInt32 <<< 23) ||| ((b &&& 0x7F).toUInt32 <<< 16) ||| (c.toUInt32 <<< 8) ||| d.toUInt32) &&& P31

/-- The fields `s`, `R1` and `R2` of `zuc256_ctx_t`. -/
structure Zuc256Ctx where
  s : Vector UInt32 16
  R1 : UInt32
  R2 : UInt32
  deriving DecidableEq, Repr

/-- `bit_reorg`. -/
def bitReorg (ctx : Zuc256Ctx) : UInt32 × UInt32 × UInt32 × UInt32 :=
  let s := ctx.s
  let x0 := ((s.get 15 <<< 1) &&& (0xFFFF0000 : UInt32)) ||| (s.get 14 &&& (0xFFFF : UInt32))
  let x1 := ((s.get 11 <<< 16) &&& (0xFFFF0000 : UInt32)) ||| ((s.get 9 >>> 15) &&& (0xFFFF : UInt32))
  let x2 := ((s.get 7 <<< 16) &&& (0xFFFF0000 : UInt32)) ||| ((s.get 5 >>> 15) &&& (0xFFFF : UInt32))
  let x3 := ((s.get 2 <<< 16) &&& (0xFFFF0000 : UInt32)) ||| ((s.get 0 >>> 15) &&& (0xFFFF : UInt32))
  (x0, x1, x2, x3)

/-- `F_func`: the output and the new registers. -/
def fFunc (ctx : Zuc256Ctx) (x0 x1 x2 : UInt32) : UInt32 × Zuc256Ctx :=
  let w := (x0 ^^^ ctx.R1) + ctx.R2
  let w1 := ctx.R1 + x1
  let w2 := ctx.R2 ^^^ x2
  let tmp := (w1 <<< 16) ||| (w2 >>> 16)
  let tmp := L1 tmp
  let R1 := sFunc tmp
  let tmp2 := (w2 <<< 16) ||| (w1 >>> 16)
  let tmp2 := L2 tmp2
  let R2 := sFunc tmp2
  (w, { ctx with R1, R2 })

/-- The sum that both feedbacks share. -/
def feedback (s : Vector UInt32 16) : UInt32 :=
  let s16 := add31 (s.get 0) (mul31 (s.get 0) 8)
  let s16 := add31 s16 (mul31 (s.get 4) 20)
  let s16 := add31 s16 (mul31 (s.get 10) 21)
  let s16 := add31 s16 (mul31 (s.get 13) 17)
  add31 s16 (mul31 (s.get 15) 15)

/-- The `memmove` of the cells, and the new last one. -/
def shift (s : Vector UInt32 16) (s16 : UInt32) : Vector UInt32 16 :=
  #v[s.get 1, s.get 2, s.get 3, s.get 4, s.get 5, s.get 6, s.get 7, s.get 8, s.get 9, s.get 10, s.get 11, s.get 12,
    s.get 13, s.get 14, s.get 15, s16]

/-- `lfsr_init`. -/
def lfsrInit (ctx : Zuc256Ctx) (u : UInt32) : Zuc256Ctx := { ctx with s := shift ctx.s (add31 (feedback ctx.s) u) }

/-- `lfsr_work`. -/
def lfsrWork (ctx : Zuc256Ctx) : Zuc256Ctx := { ctx with s := shift ctx.s (feedback ctx.s) }

/-- `OR_D_IV`. -/
def orDIv (dConst smallIv : UInt8) : UInt8 := dConst ||| (smallIv &&& 0x3F)

/-- The cells that `zuc256_init_state` loads for an IV of 16 bytes. -/
def loadState16 (key : Vector UInt8 32) (iv : Bytes) : Zuc256Ctx :=
  let k := key
  let v := fun i => iv.getD i 0
  let d := fun i => d2.getD i 0
  ⟨#v[load2 k[0] (d 0) k[16] k[24],
      load2 k[1] (d 1) k[17] k[25],
      load2 k[2] (d 2) k[18] k[26],
      load2 k[3] (d 3) k[19] k[27],
      load2 k[4] (d 4) k[20] k[28],
      load2 k[5] (d 5) k[21] k[29],
      load2 k[6] (d 6) k[22] k[30],
      load2 k[7] (d 7) (v 0) (v 8),
      load2 k[8] (d 8) (v 1) (v 9),
      load2 k[9] (d 9) (v 2) (v 10),
      load2 k[10] (d 10) (v 3) (v 11),
      load2 k[11] (d 11) (v 4) (v 12),
      load2 k[12] (d 12) (v 5) (v 13),
      load2 k[13] (d 13) (v 6) (v 14),
      load2 k[14] (d 14) (v 7) (v 15),
      load2 k[15] (d 15) k[23] k[31]], 0, 0⟩

/-- The cells that it loads for an IV of 25 bytes. -/
def loadState25 (key : Vector UInt8 32) (iv : Bytes) : Zuc256Ctx :=
  let k := key
  let v := fun i => iv.getD i 0
  let d := fun i => d3.getD i 0
  let k31Hi := (k[31] >>> 4) &&& 0x0F
  let k31Lo := k[31] &&& 0x0F
  ⟨#v[load2 k[0] (d 0) k[21] k[16],
      load2 k[1] (d 1) k[22] k[17],
      load2 k[2] (d 2) k[23] k[18],
      load2 k[3] (d 3) k[24] k[19],
      load2 k[4] (d 4) k[25] k[20],
      load2 (v 0) (orDIv (d 5) (v 17)) k[5] k[26],
      load2 (v 1) (orDIv (d 6) (v 18)) k[6] k[27],
      load2 (v 10) (orDIv (d 7) (v 19)) k[7] (v 2),
      load2 k[8] (orDIv (d 8) (v 20)) (v 3) (v 11),
      load2 k[9] (orDIv (d 9) (v 21)) (v 12) (v 4),
      load2 (v 5) (orDIv (d 10) (v 22)) k[10] k[28],
      load2 k[11] (orDIv (d 11) (v 23)) (v 6) (v 13),
      load2 k[12] (orDIv (d 12) (v 24)) (v 7) (v 14),
      load2 k[13] (d 13) (v 5) (v 8),
      load2 k[14] (d 14 ||| k31Hi) (v 16) (v 9),
      load2 k[15] (d 15 ||| k31Lo) k[30] k[29]], 0, 0⟩

/-- A round of the initialisation. -/
def initRound (ctx : Zuc256Ctx) : Zuc256Ctx :=
  let (x0, x1, x2, _) := bitReorg ctx
  let (w, ctx) := fFunc ctx x0 x1 x2
  let w := (w >>> 1) &&& P31
  lfsrInit ctx w

/-- `zuc256_init_state`. -/
def zuc256InitState (key : Vector UInt8 32) (iv : Bytes) : Zuc256Ctx :=
  let ctx := if iv.length = 16 then loadState16 key iv else loadState25 key iv
  let ctx := (List.range 32).foldl (fun ctx _ => initRound ctx) ctx
  let (x0, x1, x2, _) := bitReorg ctx
  let (_, ctx) := fFunc ctx x0 x1 x2
  lfsrWork ctx

/-- `zuc256_init` on pointers that are not null, with `iv_len` the length of the IV. `none` is its -1. -/
def zuc256Init (key : Vector UInt8 32) (iv : Bytes) : Option Zuc256Ctx :=
  if iv.length ≠ 16 ∧ iv.length ≠ 25 then none else some (zuc256InitState key iv)

/-- `zuc256_keystream_word`. -/
def zuc256KeystreamWord (ctx : Zuc256Ctx) : UInt32 × Zuc256Ctx :=
  let (x0, x1, x2, x3) := bitReorg ctx
  let (w, ctx) := fFunc ctx x0 x1 x2
  let z := w ^^^ x3
  (z, lfsrWork ctx)

/-- The four bytes that both loops take from a word. -/
def wordBytes (w : UInt32) : Bytes := [(w >>> 24).toUInt8, (w >>> 16).toUInt8, (w >>> 8).toUInt8, w.toUInt8]

/-- `zuc256_keystream`, the loop from the state on in which `len` bytes are left. -/
def zuc256Keystream (ctx : Zuc256Ctx) (len : Nat) : Bytes × Zuc256Ctx :=
  if _h : 0 < len then
    let (w, ctx) := zuc256KeystreamWord ctx
    let chunk := if len > 4 then 4 else len
    let (out, ctx) := zuc256Keystream ctx (len - chunk)
    ((wordBytes w).take chunk ++ out, ctx)
  else ([], ctx)
termination_by len
decreasing_by split <;> omega

/-- `zuc256_crypt`, the loop from the byte on at which `input` starts. -/
def zuc256Crypt (ctx : Zuc256Ctx) (input : Bytes) : Bytes × Zuc256Ctx :=
  if _h : 0 < input.length then
    let (w, ctx) := zuc256KeystreamWord ctx
    let (out, ctx) := zuc256Crypt ctx (input.drop 4)
    (List.zipWith (· ^^^ ·) (input.take 4) (wordBytes w) ++ out, ctx)
  else ([], ctx)
termination_by input.length
decreasing_by rw [List.length_drop]; omega

end CZuc

end AuthVideo
