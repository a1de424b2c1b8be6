import AuthVideo.Lemmas.Rtp

/-!
# Theorem 18: what comes through the RTP path

The receiver masks every packet of more than 78 bytes, from byte 78 on and with bytes 14 to 29 as the IV. The forwarder masks
I-frames only, counts the CSRC list and the extension as header, and reads the IV of a fragment one byte later. A packet comes
through when the two lay one mask over it.
-/

namespace AuthVideo

variable (key : Vector UInt8 32)

/-- Theorem 18 (video path). From the start of both programs, with any content of their stacks, the receiver holds the packets
that entered the forwarder exactly when, at each packet and with what the packets before it left in the forwarder, the two
programs lay the same mask over it. -/
theorem received_eq_iff (forwarderStack receiverStack : Mem) (pkts : List Packet) :
    received key forwarderStack receiverStack pkts = pkts ↔
      ∀ earlier pkt later, pkts = earlier ++ pkt :: later →
        SameMask key (Transducer.after (Forwarder.forward key) (.start forwarderStack) earlier) pkt :=
  Transducer.run_run_eq_iff (receive_forward_iff key) _ _ _

/-- A packet with a bare header, the two bytes of a NAL header, and `n` zeros. -/
def samplePacket (nalType : UInt8) (n : Nat) (hn : n ≤ 1586) : Packet where
  bytes := (0x80 :: List.replicate 11 0 : Bytes) ++ (nalType <<< 1 :: 1 :: List.replicate n 0 : Bytes)
  pos := Nat.succ_pos _
  le := by
    simp only [RTP_BUF_SIZE, List.cons_append, List.length_cons, List.length_append, List.length_replicate]
    omega

/-- The session key of both programs. -/
def gSessionKey : Vector UInt8 32 := .replicate 32 0x11

/-- A packet of another NAL type is passed on as it is, and the receiver masks its last byte. -/
theorem received_trail :
    received gSessionKey (fun _ => 0) (fun _ => 0) [samplePacket 1 65 (by decide)] ≠ [samplePacket 1 65 (by decide)] := by
  decide +kernel

end AuthVideo
