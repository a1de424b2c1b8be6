import AuthVideo.Fu

/-!
# The file that the server plays

`rtsp_h265_file.cpp` reads a file of NAL units, cuts it where a picture begins and pushes one piece after the other into its
session. Each call of `ReadFrame` reads anew from where the last piece ended, and behind the last piece it starts over.
-/

namespace AuthVideo.Xop

/-! ## Start codes -/

/-- The start code at a byte of the buffer. -/
def startCode (buf : Bytes) (i : ℕ) : Option ℕ :=
  let b := fun j => buf.getD (i + j) 0
  if b 0 = 0 ∧ b 1 = 0 ∧ b 2 = 1 then some 3
  else if b 0 = 0 ∧ b 1 = 0 ∧ b 2 = 0 ∧ b 3 = 1 then some 4
  else none

/-- `nal_type` of the unit behind a start code. -/
def nalTypeAt (buf : Bytes) (i startCode : ℕ) : UInt8 := (buf.getD (i + startCode) 0 >>> 1) &&& 0x3F

/-- The first slice of a picture. -/
def firstSliceAt (buf : Bytes) (i startCode : ℕ) : Bool :=
  nalTypeAt buf i startCode ≤ 31 && buf.getD (i + startCode + 2) 0 &&& 0x80 = 0x80

/-- The test of the first loop: a picture begins here. -/
def findsStart (buf : Bytes) (i : ℕ) : Bool :=
  match startCode buf i with
  | none => false
  | some code => firstSliceAt buf i code

/-- The test of the second loop: a picture begins here, or the parameters of the next one do. -/
def findsEnd (buf : Bytes) (i : ℕ) : Bool :=
  match startCode buf i with
  | none => false
  | some code => firstSliceAt buf i code || (32 ≤ nalTypeAt buf i code && nalTypeAt buf i code ≤ 40)

/-- A loop that goes from `i` on and breaks where the test holds. -/
def scanFor (test : ℕ → Bool) (i stop : ℕ) : Option ℕ := (List.range' i (stop - i)).find? test

/-! ## The reader -/

/-- `H265File`, with the bytes of the file and its position. `m_count` and `m_bytes_used` are of type `int`. -/
structure H265File where
  bytes : Bytes
  isOpened : Bool
  position : ℕ
  bufSize : ℕ
  count : Int32
  bytesUsed : Int32
  deriving DecidableEq

namespace H265File

/-- The default of the constructor, and `Open`. -/
def opened (bytes : Bytes) : H265File := ⟨bytes, true, 0, 500000, 0, 0⟩

/-- `Close`. -/
def close (f : H265File) : H265File := if f.isOpened then { f with isOpened := false, count := 0, bytesUsed := 0 } else f

/-- `fread(m_buf, 1, m_buf_size, m_file)`. -/
def fread (f : H265File) : Bytes × H265File :=
  let buf := (f.bytes.drop f.position).take f.bufSize
  (buf, { f with position := f.position + buf.length })

/-- `fseek(m_file, offset, SEEK_SET)`, which fails on a negative offset. -/
def fseek (offset : Int32) (f : H265File) : H265File :=
  if offset < 0 then f else { f with position := offset.toNatClampNeg }

/-- The beginning of `ReadFrame`: what it has in its buffer. At the end of the file it starts over. -/
def fill (f : H265File) : Bytes × H265File :=
  let (buf, f) := f.fread
  if buf = [] then { f.fseek 0 with count := 0, bytesUsed := 0 }.fread else (buf, f)

/-- `ReadFrame`: the bytes of the frame with `*end`, or `none` for its -1. -/
def readFrame (inBufSize : ℕ) (f : H265File) : Option (Bytes × Bool) × H265File :=
  if f.isOpened then
    let (buf, f) := f.fill
    if buf = [] then (none, f.close)
    else
      match scanFor (findsStart buf) 0 (buf.length - 6) with
      | none => (none, f.close)
      | some start =>
        match scanFor (findsEnd buf) (start + 4) (buf.length - 6) with
        | some i =>
          let bytesUsed := f.bytesUsed + .ofNat i
          (some (buf.take (min i inBufSize), false), { f with count := f.count + 1, bytesUsed }.fseek bytesUsed)
        | none =>
          -- The last frame reaches to the end of the buffer, unless it is the first one as well.
          if 0 < f.count then (some (buf.take (min buf.length inBufSize), true), { f with count := 0, bytesUsed := 0 }.fseek 0)
          else (none, f.close)
  else (none, f)

/-- `buf_size` of `SendFrameThread`. -/
def frameBufSize : ℕ := 2000000

/-- The frames that the first `n` turns of `SendFrameThread` push. It ends where there is none. -/
def frames : ℕ → H265File → List Bytes
  | 0, _ => []
  | n + 1, f =>
    match f.readFrame frameBufSize with
    | (none, _) => []
    | (some (frame, _), f) => frame :: frames n f

end H265File

end AuthVideo.Xop
