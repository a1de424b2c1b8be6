import AuthVideo.Cipher.ZucC
import AuthVideo.Lib.Transducer

/-!
# The RTP path

The forwarder of `rtsp_rtp_client.c` encrypts I-frames in the packets that it passes on, and `rtp_udp_receiver.c` decrypts
them. Both keep one buffer over all packets: behind the bytes of a packet lie those of earlier and longer ones.
-/

namespace AuthVideo

open CZuc

/-! ## The buffer -/

/-- `RTP_BUF_SIZE`. -/
def RTP_BUF_SIZE : Nat := 1600

/-- The memory from the first byte of the buffer on. Reads may run past the packet, and past the buffer. -/
abbrev Mem := Nat → UInt8

/-- The `n` bytes at `p`. -/
def Mem.read (m : Mem) (p n : Nat) : Bytes := (List.range n).map fun i => m (p + i)

/-- The memory after the bytes at `p` are replaced. -/
def Mem.write (m : Mem) (p : Nat) (data : Bytes) : Mem := fun i => if p ≤ i then data.getD (i - p) (m i) else m i

/-- A datagram that a loop of the two programs goes on with: `n > 0`, and it fits into the buffer. -/
@[ext] structure Packet where
  bytes : Bytes
  pos : 0 < bytes.length
  le : bytes.length ≤ RTP_BUF_SIZE
  deriving DecidableEq

/-- The packet in a buffer, as long as the one that came in. -/
def Mem.packet (m : Mem) (p : Packet) : Packet where
  bytes := m.read 0 p.bytes.length
  pos := by simpa [Mem.read] using p.pos
  le := by simpa [Mem.read] using p.le

/-! ## Headers -/

/-- `RTP_HEADER_LEN`. -/
def RTP_HEADER_LEN : Nat := 12

/-- `SKIP_PAYLOAD_PREFIX`, the same in both programs. -/
def SKIP_PAYLOAD_PREFIX : Nat := 64

/-- `HEVC_IDR_W_RADL`, `HEVC_IDR_N_LP` and `HEVC_CRA_NUT`. -/
def iFrameTypes : List UInt8 := [19, 20, 21]

/-- `hevc_nalu_type`. -/
def hevcNaluType (b : UInt8) : UInt8 := (b >>> 1) &&& 0x3F

/-- `rtp_header_len`. `none` is its -1. The length of the extension is read wherever the CSRC list ends. -/
def rtpHeaderLen (rtp : Mem) (len : Nat) : Option Nat :=
  if len < 12 then none
  else
    let cc := rtp 0 &&& 0x0F
    let x := (rtp 0 >>> 4) &&& 0x01
    let hdrLen := 12 + cc.toNat * 4
    if x ≠ 0 then
      let extLen := ((rtp (hdrLen + 2)).toNat <<< 8) ||| (rtp (hdrLen + 3)).toNat
      some (hdrLen + (4 + extLen * 4))
    else some hdrLen

section Programs

variable (key : Vector UInt8 32)

/-- `zuc256_init` on the session key and 16 bytes of the packet as the IV, and `zuc256_xor_inplace` on the `n` bytes at `p`. -/
def zucXor (rtp : Mem) (ivAt p n : Nat) : Mem :=
  match zuc256Init key (rtp.read ivAt 16) with
  | some zuc => rtp.write p (zuc256Crypt zuc (rtp.read p n)).1
  | none => rtp

/-! ## The forwarder -/

/-- `process_rtp_packet`: the static `skip_remain` and the memory after the call. -/
def processRtpPacket (skipRemain : Nat) (rtp : Mem) (len : Nat) : Nat × Mem :=
  match rtpHeaderLen rtp len with
  | none => (skipRemain, rtp)
  | some hdrLen =>
    if len ≤ hdrLen + 2 then (skipRemain, rtp)
    else
      let payload := hdrLen
      let payloadLen := len - hdrLen
      let nalType := (rtp payload >>> 1) &&& 0x3F
      if nalType ≠ 49 then
        if nalType ∉ iFrameTypes then (skipRemain, rtp)
        else if payloadLen ≤ 2 + SKIP_PAYLOAD_PREFIX then (skipRemain, rtp)
        else
          let enc := payload + 2 + SKIP_PAYLOAD_PREFIX
          let encLen := payloadLen - 2 - SKIP_PAYLOAD_PREFIX
          (skipRemain, zucXor key rtp (payload + 2) enc encLen)
      else if payloadLen < 3 then (skipRemain, rtp)
      else
        let fuHeader := rtp (payload + 2)
        let start := fuHeader &&& 0x80
        let origType := fuHeader &&& 0x3F
        if origType ∉ iFrameTypes then (skipRemain, rtp)
        else
          let frag := payload + 3
          let fragLen := payloadLen - 3
          let skipRemain := if start ≠ 0 then SKIP_PAYLOAD_PREFIX else skipRemain
          let skip := if skipRemain > 0 then if fragLen < skipRemain then fragLen else skipRemain else 0
          let frag := frag + skip
          let fragLen := fragLen - skip
          let skipRemain := skipRemain - skip
          if fragLen ≤ 0 then (skipRemain, rtp)
          else (skipRemain, zucXor key rtp (payload + 3) frag fragLen)

/-- The forwarder: the static `skip_remain` and its buffer. -/
structure Forwarder where
  skipRemain : Nat
  buf : Mem

/-- The forwarder at its start. The buffer holds whatever the stack held. -/
def Forwarder.start (stack : Mem) : Forwarder := ⟨0, stack⟩

/-- A turn of `rtp_recv_forward_loop`: a packet comes in, and one goes out. -/
def Forwarder.forward (f : Forwarder) (pkt : Packet) : Forwarder × Packet :=
  let buf := f.buf.write 0 pkt.bytes
  let (skipRemain, buf) := processRtpPacket key f.skipRemain buf pkt.bytes.length
  (⟨skipRemain, buf⟩, buf.packet pkt)

/-! ## The receiver -/

/-- `decrypt_rtp_packet`. Its test of the NAL type stands in a comment. -/
def decryptRtpPacket (rtp : Mem) (len : Nat) : Mem :=
  if len ≤ RTP_HEADER_LEN + 2 then rtp
  else
    let payload := RTP_HEADER_LEN
    let payloadLen := len - RTP_HEADER_LEN
    if payloadLen ≤ 2 + SKIP_PAYLOAD_PREFIX then rtp
    else
      let decStart := payload + 2 + SKIP_PAYLOAD_PREFIX
      let decLen := payloadLen - 2 - SKIP_PAYLOAD_PREFIX
      zucXor key rtp (payload + 2) decStart decLen

/-- A turn of `rtp_receive_loop`: the buffer, and the packet that it holds. -/
def receive (buf : Mem) (pkt : Packet) : Mem × Packet :=
  let buf := buf.write 0 pkt.bytes
  let buf := decryptRtpPacket key buf pkt.bytes.length
  (buf, buf.packet pkt)

/-- The packets that the receiver holds after the two programs have passed on all that came in, with none lost. -/
def received (forwarderStack receiverStack : Mem) (pkts : List Packet) : List Packet :=
  Transducer.run (receive key) receiverStack (Transducer.run (Forwarder.forward key) (.start forwarderStack) pkts)

end Programs

end AuthVideo
