import AuthVideo.Cipher.ZucPy
import AuthVideo.Lib.Loop
import AuthVideo.Lib.Machine
import Mathlib.Data.List.FinRange
import Mathlib.Logic.Function.Basic

/-!
# Fragmentation units

`H265Source.cpp` cuts a NAL unit that is too long for one RTP packet into fragments, and `rtsp.c` puts the fragments of a timestamp
together again in a pool of eight buffers. The board has words of 32 bits: a `size_t` is a number below `2 ^ 32`. What the
allocator answers is an argument of each call.
-/

namespace AuthVideo

/-! ## Buffers -/

/-- `MAX_FU_BUFFERS`. -/
def MAX_FU_BUFFERS : Nat := 8

/-- What ends a call otherwise than by a return: a loop that never ends, or a write behind the end of a buffer. -/
inductive FuFault where
  | endless
  | overrun
  deriving DecidableEq, Repr

/-- The capacities that `fu_buffer_reserve` reaches: 2048 and its doubles, and zero. -/
def Doubled (capacity : Nat) : Prop := capacity = 0 ∨ ∃ k ≤ 20, capacity = 2048 * 2 ^ k

/-- `struct FuBuffer`. The size is the length of the data. -/
structure FuBuffer where
  active : Bool
  timestamp : UInt32
  data : Bytes
  capacity : Nat
  fits : data.length ≤ capacity
  doubled : Doubled capacity

/-- `fu_buffer_reset`. -/
def FuBuffer.reset : FuBuffer := ⟨false, 0, [], 0, Nat.le_refl 0, .inl rfl⟩

/-- A buffer that `fu_buffer_get` takes for a timestamp. -/
def FuBuffer.fresh (timestamp : UInt32) : FuBuffer := { FuBuffer.reset with active := true, timestamp }

/-- `buf->size = 0`. -/
def FuBuffer.clear (buf : FuBuffer) : FuBuffer := { buf with data := [], fits := Nat.zero_le _ }

/-- `memcpy` behind the data. -/
def FuBuffer.append (buf : FuBuffer) (bytes : Bytes) : Except FuFault FuBuffer :=
  if h : buf.data.length + bytes.length ≤ buf.capacity then
    .ok { buf with data := buf.data ++ bytes, fits := by rwa [List.length_append] }
  else .error .overrun

/-- A turn of the loop that doubles `new_cap`. -/
def growTurn (need newCap : Nat) : Option (Nat ⊕ Nat) :=
  if newCap < need then some (.inl (newCap * 2 % 2 ^ 32)) else some (.inr newCap)

/-- The loop. 32 turns double any capacity beyond its last bit; where they are not enough, no number of turns is. -/
def newCapacity (capacity need : Nat) : Option Nat :=
  Loop.iterate (growTurn need) 32 (if capacity ≠ 0 then capacity * 2 % 2 ^ 32 else 2048)

/-- A double that no longer fits into 32 bits is zero. -/
theorem Doubled.double {n : Nat} (h : Doubled n) : Doubled (n * 2 % 2 ^ 32) := by
  rcases h with rfl | ⟨k, hk, rfl⟩
  · exact .inl rfl
  · rcases Nat.lt_or_eq_of_le hk with hlt | rfl
    · refine .inr ⟨k + 1, hlt, ?_⟩
      have hpow : 2 ^ (k + 1) ≤ 2 ^ 20 := Nat.pow_le_pow_right (by decide) hlt
      rw [Nat.pow_succ] at hpow ⊢
      omega
    · exact .inl rfl

/-- The loop ends with a capacity that is enough. -/
theorem growLoop_spec {need fuel capacity newCap : Nat} (h : Loop.iterate (growTurn need) fuel capacity = some newCap)
    (hdoubled : Doubled capacity) : need ≤ newCap ∧ Doubled newCap := by
  induction fuel generalizing capacity with
  | zero => cases h
  | succ fuel ih =>
    rw [Loop.iterate, growTurn] at h
    split at h
    · rename_i hturn
      split at hturn <;> cases hturn
    · rename_i hturn
      split at hturn
      · cases hturn
        exact ih h hdoubled.double
      · cases hturn
    · rename_i hturn
      split at hturn
      · cases hturn
      · rename_i hge
        cases hturn
        cases h
        exact ⟨Nat.not_lt.mp hge, hdoubled⟩

theorem newCapacity_spec {capacity need newCap : Nat} (h : newCapacity capacity need = some newCap) (hdoubled : Doubled capacity) :
    need ≤ newCap ∧ Doubled newCap := by
  refine growLoop_spec h ?_
  split
  · exact hdoubled.double
  · exact .inr ⟨0, Nat.zero_le _, rfl⟩

/-- `fu_buffer_reserve`. `none` is a `realloc` that fails. -/
def FuBuffer.reserve (granted : Bool) (buf : FuBuffer) (need : Nat) : Except FuFault (Option FuBuffer) :=
  if hcap : buf.capacity ≥ need then .ok (some buf)
  else
    match hnew : newCapacity buf.capacity need with
    | none => .error .endless
    | some newCap =>
      if granted then
        .ok (some { buf with
          capacity := newCap
          fits := by
            have := buf.fits
            have := (newCapacity_spec hnew buf.doubled).1
            omega
          doubled := (newCapacity_spec hnew buf.doubled).2 })
      else .ok none

/-! ## The pool -/

/-- `fu_pool`. -/
abbrev FuPool := Fin MAX_FU_BUFFERS → FuBuffer

/-- The pool after the `memset`. -/
def FuPool.init : FuPool := fun _ => .reset

/-- The pool with another buffer at `i`. -/
def FuPool.set (pool : FuPool) (i : Fin MAX_FU_BUFFERS) (buf : FuBuffer) : FuPool := Function.update pool i buf

@[simp] theorem FuPool.set_self (pool : FuPool) (i : Fin MAX_FU_BUFFERS) (buf : FuBuffer) : pool.set i buf i = buf :=
  Function.update_self ..

theorem FuPool.set_of_ne (pool : FuPool) {i j : Fin MAX_FU_BUFFERS} (h : j ≠ i) (buf : FuBuffer) : pool.set i buf j = pool j :=
  Function.update_of_ne h ..

@[simp] theorem FuPool.set_set (pool : FuPool) (i : Fin MAX_FU_BUFFERS) (buf buf' : FuBuffer) :
    (pool.set i buf).set i buf' = pool.set i buf' :=
  Function.update_idem ..

/-- The first buffer that passes a test. -/
def FuPool.first (pool : FuPool) (test : FuBuffer → Bool) : Option (Fin MAX_FU_BUFFERS) :=
  (List.finRange MAX_FU_BUFFERS).find? fun i => test (pool i)

/-- The buffer of a timestamp. -/
def FuPool.find (pool : FuPool) (timestamp : UInt32) : Option (Fin MAX_FU_BUFFERS) :=
  pool.first fun buf => buf.active ∧ buf.timestamp = timestamp

/-- `fu_buffer_get`: the buffer, and the pool after the call. In a full pool the first buffer is given up. -/
def FuPool.get (pool : FuPool) (timestamp : UInt32) (createIfMissing : Bool) : Option (Fin MAX_FU_BUFFERS × FuPool) :=
  match pool.find timestamp with
  | some i => some (i, pool)
  | none =>
    if createIfMissing then
      match pool.first fun buf => !buf.active with
      | some i => some (i, pool.set i (.fresh timestamp))
      | none => some (⟨0, by decide⟩, pool.set ⟨0, by decide⟩ (.fresh timestamp))
    else none

/-- The answers of the allocator to the requests of a call: for the header, for the data, and for the result. -/
structure Heap where
  header : Bool
  body : Bool
  result : Bool
  deriving DecidableEq

/-- An allocator that grants all. -/
def Heap.grants : Heap := ⟨true, true, true⟩

/-- `fu_process` from `add_len` on. -/
def fuAppend (heap : Heap) (isEnd : Bool) (i : Fin MAX_FU_BUFFERS) (buf : FuBuffer) (piece : Bytes) (pool : FuPool) :
    Except FuFault (Option Bytes × FuPool) := do
  match ← buf.reserve heap.body ((buf.data.length + piece.length) % 2 ^ 32) with
  | none => return (none, pool.set i buf)
  | some buf =>
    let buf ← buf.append piece
    if isEnd then
      if heap.result then return (some buf.data, pool.set i .reset)
      else return (none, pool.set i .reset)
    else return (none, pool.set i buf)

/-- The two bytes of the header of the unit, from those of the fragment and the type in its FU header. -/
def origHeader (payloadHdr : UInt16) (origType : UInt8) : Bytes :=
  let f := (payloadHdr >>> 15) &&& 0x01
  let layerId := (payloadHdr >>> 3) &&& 0x3F
  let tid := payloadHdr &&& 0x07
  let origHdr := (f <<< 15) ||| (origType.toUInt16 <<< 9) ||| (layerId <<< 3) ||| tid
  [((origHdr >>> 8) &&& 0xFF).toUInt8, (origHdr &&& 0xFF).toUInt8]

/-- `fu_process`: the NAL unit that it puts out, and the pool after the call. -/
def fuProcess (heap : Heap) (payload : Bytes) (timestamp : UInt32) (pool : FuPool) : Except FuFault (Option Bytes × FuPool) :=
  if payload.length < 3 then .ok (none, pool)
  else
    let payloadHdr := ((payload.getD 0 0).toUInt16 <<< 8) ||| (payload.getD 1 0).toUInt16
    let naluType := ((payloadHdr >>> 9) &&& 0x3F).toUInt8
    if naluType ≠ 49 then .ok (none, pool)
    else
      let fuHeader := payload.getD 2 0
      let isStart : Bool := fuHeader &&& 0x80 ≠ 0
      let isEnd : Bool := fuHeader &&& 0x40 ≠ 0
      let origType := fuHeader &&& 0x3F
      match pool.get timestamp isStart with
      | none => .ok (none, pool)
      | some (i, pool) =>
        if isStart then do
          let buf := (pool i).clear
          match ← buf.reserve heap.header (buf.data.length + 6) with
          | none => return (none, pool.set i buf)
          | some buf =>
            let buf ← buf.append ([0x00, 0x00, 0x00, 0x01] ++ origHeader payloadHdr origType)
            fuAppend heap isEnd i buf (payload.drop 3) pool
        else if !(pool i).active then .ok (none, pool)
        else fuAppend heap isEnd i (pool i) (payload.drop 3) pool

/-! ## Packets -/

/-- `struct RtpHeader`, as `parse_rtp` fills it. -/
structure RtpHeader where
  seq : UInt16
  timestamp : UInt32
  ssrc : UInt32
  marker : UInt8
  deriving DecidableEq

/-- Four bytes as a number. -/
def be32 (b0 b1 b2 b3 : UInt8) : UInt32 :=
  (b0.toUInt32 <<< 24) ||| (b1.toUInt32 <<< 16) ||| (b2.toUInt32 <<< 8) ||| b3.toUInt32

/-- `parse_rtp`: the header and the payload. -/
def parseRtp (packet : Bytes) : Option (RtpHeader × Bytes) :=
  if packet.length < 12 then none
  else
    let p := fun i => packet.getD i 0
    some ({ seq := ((p 2).toUInt16 <<< 8) ||| (p 3).toUInt16
            timestamp := be32 (p 4) (p 5) (p 6) (p 7)
            ssrc := be32 (p 8) (p 9) (p 10) (p 11)
            marker := (p 1 >>> 7) &&& 0x1 },
      packet.drop 12)

/-- What a turn of `rtp_client_loop` writes to its file. -/
structure Written where
  assembled : Option Bytes
  single : Option Bytes
  deriving DecidableEq

/-- The part of a turn of `rtp_client_loop` for an open file. The program does not open one. -/
def clientTurn (heap : Heap) (packet : Bytes) (pool : FuPool) : Except FuFault (Written × FuPool) :=
  match parseRtp packet with
  | none => .ok (⟨none, none⟩, pool)
  | some (rtp, payload) =>
    if payload.length = 0 then .ok (⟨none, none⟩, pool)
    else
      let naluType := (payload.getD 0 0 >>> 1) &&& 0x3F
      if naluType = 49 then do
        let (nalu, pool) ← fuProcess heap payload rtp.timestamp pool
        return (⟨nalu, none⟩, pool)
      else .ok (⟨none, if heap.result then some ([0x00, 0x00, 0x00, 0x01] ++ payload) else none⟩, pool)

/-! ## The sender -/

/-- `MAX_RTP_PAYLOAD_SIZE`. -/
def MAX_RTP_PAYLOAD_SIZE : Nat := 1420

/-- `AVFrame`, with a NAL unit in its buffer, which has one byte more. -/
structure AVFrame where
  nal : Bytes
  timestamp : UInt32
  two_le : 2 ≤ nal.length
  size_lt : nal.length + 1 < 2 ^ 32

/-- `RtpPacket`. -/
structure RtpPacket where
  payload : Bytes
  timestamp : UInt32
  last : Bool
  deriving DecidableEq

/-- The loop of `HandleFrame` and the fragment behind it, from the byte on at which `body` starts. -/
def fragments (timestamp : UInt32) (fu0 fu1 fu2 : UInt8) (body : Bytes) : List RtpPacket :=
  if _h : body.length + 3 > MAX_RTP_PAYLOAD_SIZE then
    ⟨[fu0, fu1, fu2] ++ body.take (MAX_RTP_PAYLOAD_SIZE - 3), timestamp, false⟩ ::
      fragments timestamp fu0 fu1 (fu2 &&& ~~~0x80) (body.drop (MAX_RTP_PAYLOAD_SIZE - 3))
  else [⟨[fu0, fu1, fu2 ||| 0x40] ++ body, timestamp, true⟩]
termination_by body.length
decreasing_by
  rw [List.length_drop, MAX_RTP_PAYLOAD_SIZE]
  rw [MAX_RTP_PAYLOAD_SIZE] at _h
  omega

/-- The timestamp of a frame, with `now` what `GetTimestamp` returns. -/
def AVFrame.stamp (frame : AVFrame) (now : UInt32) : UInt32 := if frame.timestamp = 0 then now else frame.timestamp

/-- `HandleFrame`: the packets that it gives to `send_frame_callback_`. -/
def handleFrame (now : UInt32) (frame : AVFrame) : List RtpPacket :=
  if frame.nal.length ≤ MAX_RTP_PAYLOAD_SIZE then [⟨frame.nal, frame.stamp now, true⟩]
  else
    let b0 : UInt8 := frame.nal.getD 0 0
    let nalUnitType : UInt8 := (b0 &&& 0x7E) >>> 1
    let fu0 : UInt8 := (b0 &&& (0x81 : UInt8)) ||| ((49 : UInt8) <<< 1)
    let fu1 : UInt8 := frame.nal.getD 1 0
    let fu2 : UInt8 := 0x80 ||| nalUnitType
    fragments (frame.stamp now) fu0 fu1 fu2 (frame.nal.drop 2)

/-- `SetRtpHeader`: the twelve bytes in front of the payload, for payload type 96. -/
def setRtpHeader (seq : UInt16) (ssrc : UInt32) (pkt : RtpPacket) : Bytes :=
  [0x80, (if pkt.last then 0x80 else 0) ||| 96, (seq >>> 8).toUInt8, seq.toUInt8,
    (pkt.timestamp >>> 24).toUInt8, (pkt.timestamp >>> 16).toUInt8, (pkt.timestamp >>> 8).toUInt8, pkt.timestamp.toUInt8,
    (ssrc >>> 24).toUInt8, (ssrc >>> 16).toUInt8, (ssrc >>> 8).toUInt8, ssrc.toUInt8]

/-- A packet with the number that it is sent under. -/
structure Datagram where
  seq : UInt16
  pkt : RtpPacket
  deriving DecidableEq

/-- The bytes that `SendRtpOverUdp` sends. -/
def Datagram.bytes (ssrc : UInt32) (d : Datagram) : Bytes := setRtpHeader d.seq ssrc d.pkt ++ d.pkt.payload

/-- `packet_seq++` for each packet. -/
def numbered (seq : UInt16) : List RtpPacket → List Datagram
  | [] => []
  | pkt :: pkts => ⟨seq, pkt⟩ :: numbered (seq + 1) pkts

/-- What is sent for frames, each with the clock at its turn. -/
def sentFor (seq : UInt16) (frames : List (AVFrame × UInt32)) : List Datagram :=
  numbered seq (frames.flatMap fun (frame, now) => handleFrame now frame)

end AuthVideo
