import AuthVideo.Cipher.ZucPy

/-!
# SM3 of the boards

`SM3.c`. Words are `unsigned int`, lengths `uint64_t`; both wrap. The macro `GM_SM3_ROTL` shifts a word by 32 where its distance
is a multiple of 32; C leaves the result of that open, so it is a parameter here.
-/

namespace AuthVideo

/-- Eight words: a hash value, and the registers `A` to `H` of a compression. -/
structure Words8 (α : Type) where
  A : α
  B : α
  C : α
  D : α
  E : α
  F : α
  G : α
  H : α
  deriving DecidableEq, Repr

/-- The words in order. -/
def Words8.toList {α : Type} (v : Words8 α) : List α := [v.A, v.B, v.C, v.D, v.E, v.F, v.G, v.H]

/-- A function on each word. -/
def Words8.map {α β : Type} (f : α → β) (v : Words8 α) : Words8 β := ⟨f v.A, f v.B, f v.C, f v.D, f v.E, f v.F, f v.G, f v.H⟩

/-- A function on the words of two, pairwise. -/
def Words8.zipWith {α β γ : Type} (f : α → β → γ) (v : Words8 α) (w : Words8 β) : Words8 γ :=
  ⟨f v.A w.A, f v.B w.B, f v.C w.C, f v.D w.D, f v.E w.E, f v.F w.F, f v.G w.G, f v.H w.H⟩

/-- What the machine makes of `x >> 32`: nothing is left, or the distance is taken modulo 32. -/
structure Shr32 where
  shr : UInt32 → UInt32
  shr_eq : ∀ x, shr x = 0 ∨ shr x = x

namespace CSm3

/-- `GM_SM3_IV_A` to `GM_SM3_IV_H`. -/
def IV : Words8 UInt32 :=
  ⟨0x7380166f, 0x4914b2b9, 0x172442d7, 0xda8a0600, 0xa96f30bc, 0x163138aa, 0xe38dee4d, 0xb0fb0e4e⟩

/-- `GM_SM3_T_0`. -/
def T0 : UInt32 := 0x79CC4519

/-- `GM_SM3_T_1`. -/
def T1 : UInt32 := 0x7A879D8A

/-- `GM_SM3_FF_0`. -/
def FF0 (x y z : UInt32) : UInt32 := x ^^^ y ^^^ z

/-- `GM_SM3_FF_1`. -/
def FF1 (x y z : UInt32) : UInt32 := (x &&& y) ||| (x &&& z) ||| (y &&& z)

/-- `GM_SM3_GG_0`. -/
def GG0 (x y z : UInt32) : UInt32 := x ^^^ y ^^^ z

/-- `GM_SM3_GG_1`. -/
def GG1 (x y z : UInt32) : UInt32 := (x &&& y) ||| (~~~x &&& z)

/-- The fields of `gm_sm3_context`. -/
structure Context where
  state : Words8 UInt32
  buf : Vector UInt8 64
  curBufLen : UInt64
  compressedLen : UInt64
  deriving DecidableEq, Repr

section Machine

variable (M : Shr32)

/-- `x >> n` for a distance up to 32. -/
def shr (x : UInt32) (n : Nat) : UInt32 := if n = 32 then M.shr x else x >>> UInt32.ofNat n

/-- `GM_SM3_SHL`. -/
def SHL (x : UInt32) (n : Nat) : UInt32 := (x &&& 0xFFFFFFFF) <<< UInt32.ofNat (n % 32)

/-- `GM_SM3_ROTL`. -/
def ROTL (x : UInt32) (n : Nat) : UInt32 := SHL x n ||| shr M x (32 - n % 32)

/-- `GM_SM3_P_0`. -/
def P0 (x : UInt32) : UInt32 := x ^^^ ROTL M x 9 ^^^ ROTL M x 17

/-- `GM_SM3_P_1`. -/
def P1 (x : UInt32) : UInt32 := x ^^^ ROTL M x 15 ^^^ ROTL M x 23

/-- `GM_GET_UINT32_BE`. -/
def getUint32Be (b : Vector UInt8 64) (i : Nat) : UInt32 :=
  let b := fun i => (b.toList.getD i 0).toUInt32
  (b i <<< 24) ||| (b (i + 1) <<< 16) ||| (b (i + 2) <<< 8) ||| b (i + 3)

/-- A turn of the loop of `gm_sm3_BiToW`. `W` is what is written of the array, so it ends before `W[i]`. -/
def expand (W : List UInt32) (i : Nat) : List UInt32 :=
  let w := fun i => W.getD i 0
  let tmp := w (i - 16) ^^^ w (i - 9) ^^^ ROTL M (w (i - 3)) 15
  W ++ [P1 M tmp ^^^ ROTL M (w (i - 13)) 7 ^^^ w (i - 6)]

/-- `gm_sm3_BiToW`. -/
def biToW (Bi : Vector UInt8 64) : List UInt32 :=
  let W := (List.range 16).map fun i => getUint32Be Bi (4 * i)
  (List.range' 16 52).foldl (expand M) W

/-- `gm_sm3_WToW1`. -/
def wToW1 (W : List UInt32) : List UInt32 := (List.range 64).map fun i => W.getD i 0 ^^^ W.getD (i + 4) 0

/-- A turn of the loop of `gm_sm3_CF`. -/
def round (W W1 : List UInt32) (r : Words8 UInt32) (j : Nat) : Words8 UInt32 :=
  let Tj := if j < 16 then T0 else T1
  let SS1 := ROTL M (ROTL M r.A 12 + r.E + ROTL M Tj j) 7
  let SS2 := SS1 ^^^ ROTL M r.A 12
  let TT1 := (if j < 16 then FF0 r.A r.B r.C else FF1 r.A r.B r.C) + r.D + SS2 + W1.getD j 0
  let TT2 := (if j < 16 then GG0 r.E r.F r.G else GG1 r.E r.F r.G) + r.H + SS1 + W.getD j 0
  ⟨TT1, r.A, ROTL M r.B 9, r.C, P0 M TT2, r.E, ROTL M r.F 19, r.G⟩

/-- `gm_sm3_CF`. -/
def cf (W W1 : List UInt32) (state : Words8 UInt32) : Words8 UInt32 :=
  state.zipWith (· ^^^ ·) ((List.range 64).foldl (round M W W1) state)

/-- `gm_sm3_compress`. -/
def gmSm3Compress (ctx : Context) : Context :=
  let W := biToW M ctx.buf
  let W1 := wToW1 W
  { ctx with state := cf M W W1 ctx.state }

/-- `gm_sm3_init`. The buffer keeps what it holds. -/
def gmSm3Init (ctx : Context) : Context := { ctx with state := IV, curBufLen := 0, compressedLen := 0 }

/-- A turn of the loop of `gm_sm3_update`. -/
def updateByte (ctx : Context) (b : UInt8) : Context :=
  let ctx := { ctx with buf := ctx.buf.setIfInBounds ctx.curBufLen.toNat b }
  let ctx := { ctx with curBufLen := ctx.curBufLen + 1 }
  if ctx.curBufLen = 64 then
    let ctx := gmSm3Compress M ctx
    { ctx with compressedLen := ctx.compressedLen + 512, curBufLen := 0 }
  else ctx

/-- `gm_sm3_update` on the `iLen` bytes of `input`. -/
def gmSm3Update (ctx : Context) (input : Bytes) : Context := input.foldl (updateByte M) ctx

/-- `GM_PUT_UINT32_BE`. -/
def putUint32Be (n : UInt64) : Bytes := [(n >>> 24).toUInt8, (n >>> 16).toUInt8, (n >>> 8).toUInt8, n.toUInt8]

/-- `gm_sm3_padding`. -/
def gmSm3Padding : Bytes := 0x80 :: List.replicate 63 0

/-- `gm_sm3_done`. -/
def gmSm3Done (ctx : Context) : Bytes :=
  let totalLen := ctx.compressedLen + (ctx.curBufLen <<< 3)
  let high := (totalLen >>> 32) &&& 0x0FFFFFFFF
  let low := totalLen &&& 0x0FFFFFFFF
  let msglen := putUint32Be high ++ putUint32Be low
  let padn := (if ctx.curBufLen + 1 ≤ 56 then 56 - ctx.curBufLen else 120 - ctx.curBufLen).toUInt32
  let ctx := gmSm3Update M ctx (gmSm3Padding.take padn.toNat)
  let ctx := gmSm3Update M ctx msglen
  (ctx.state.toList.map fun w => putUint32Be w.toUInt64).flatten

/-- `gm_sm3_init`, `gm_sm3_update` on each chunk, and `gm_sm3_done`. -/
def digestChunks (ctx : Context) (chunks : List Bytes) : Bytes :=
  gmSm3Done M (chunks.foldl (gmSm3Update M) (gmSm3Init ctx))

/-- `gm_sm3`, whose context starts with what the stack holds. -/
def gmSm3 (ctx : Context) (input : Bytes) : Bytes :=
  let ctx := gmSm3Init ctx
  let ctx := gmSm3Update M ctx input
  gmSm3Done M ctx

end Machine

end CSm3

end AuthVideo
