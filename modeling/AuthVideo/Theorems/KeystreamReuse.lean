import AuthVideo.Lemmas.RtpHeader
import AuthVideo.Theorems.VideoPath

/-!
# Theorem 19: when the forwarder uses a keystream twice

The forwarder encrypts every I-frame under one key and takes the IV from the packet itself: the 16 bytes behind the header of the
NAL unit, or behind that of the fragment. Two packets with the same 16 bytes there get the same keystream.
-/

namespace AuthVideo

open CZuc

/-! ## The calls of the cipher -/

/-- A call of `zuc256_init` and of `zuc256_xor_inplace`: the IV, and the bytes that are encrypted. -/
structure ZucCall where
  iv : Bytes
  plaintext : Bytes
  deriving DecidableEq

/-- The call that `process_rtp_packet` makes, with its branches up to there. -/
def zucCall (skipRemain : Nat) (rtp : Mem) (len : Nat) : Option ZucCall :=
  match rtpHeaderLen rtp len with
  | none => none
  | some hdrLen =>
    if len ≤ hdrLen + 2 then none
    else
      let payload := hdrLen
      let payloadLen := len - hdrLen
      let nalType := (rtp payload >>> 1) &&& 0x3F
      if nalType ≠ 49 then
        if nalType ∉ iFrameTypes then none
        else if payloadLen ≤ 2 + SKIP_PAYLOAD_PREFIX then none
        else
          let enc := payload + 2 + SKIP_PAYLOAD_PREFIX
          let encLen := payloadLen - 2 - SKIP_PAYLOAD_PREFIX
          some ⟨rtp.read (payload + 2) 16, rtp.read enc encLen⟩
      else if payloadLen < 3 then none
      else
        let fuHeader := rtp (payload + 2)
        let start := fuHeader &&& 0x80
        let origType := fuHeader &&& 0x3F
        if origType ∉ iFrameTypes then none
        else
          let frag := payload + 3
          let fragLen := payloadLen - 3
          let skipRemain := if start ≠ 0 then SKIP_PAYLOAD_PREFIX else skipRemain
          let skip := if skipRemain > 0 then if fragLen < skipRemain then fragLen else skipRemain else 0
          let frag := frag + skip
          let fragLen := fragLen - skip
          if fragLen ≤ 0 then none else some ⟨rtp.read (payload + 3) 16, rtp.read frag fragLen⟩

/-- The call of a span. -/
def Span.call (rtp : Mem) (len : Nat) (span : Span) : ZucCall :=
  ⟨rtp.read span.ivAt 16, rtp.read span.start (len - span.start)⟩

/-- The bytes of a fragment that are left behind the clear ones. -/
theorem fragment_call (skipNow : Nat) (rtp : Mem) (len hdrLen skip : Nat)
    (hskip : skip = if skipNow > 0 then if len - hdrLen - 3 < skipNow then len - hdrLen - 3 else skipNow else 0) :
    (if len - hdrLen - 3 - skip ≤ 0 then none
      else some (⟨rtp.read (hdrLen + 3) 16, rtp.read (hdrLen + 3 + skip) (len - hdrLen - 3 - skip)⟩ : ZucCall)) =
      (if hdrLen + 3 + skipNow < len then some ⟨hdrLen + 3, hdrLen + 3 + skipNow⟩ else none).map (Span.call rtp len) := by
  by_cases hlen : hdrLen + 3 + skipNow < len
  · have hall : skip = skipNow := by
      rw [hskip]
      split_ifs <;> omega
    have hleft : len - hdrLen - 3 - skipNow = len - (hdrLen + 3 + skipNow) := by omega
    rw [hall, if_neg (by omega), if_pos hlen, hleft]
    rfl
  · have hnone : len - hdrLen - 3 - skip ≤ 0 := by
      rw [hskip]
      split_ifs <;> omega
    rw [if_pos hnone, if_neg hlen, Option.map_none]

/-- The call is that of the span that the forwarder masks. -/
theorem zucCall_eq (skipRemain : Nat) (rtp : Mem) (len : Nat) :
    zucCall skipRemain rtp len = (forwardSpan skipRemain rtp len).map (Span.call rtp len) := by
  have hskip : SKIP_PAYLOAD_PREFIX = 64 := rfl
  unfold zucCall forwardSpan
  cases hhdr : rtpHeaderLen rtp len with
  | none => rfl
  | some hdrLen =>
    by_cases hshort : len ≤ hdrLen + 2
    · simp only [if_pos hshort, Option.map_none]
    · by_cases hsingle : (rtp hdrLen >>> 1) &&& 0x3F ≠ 49
      · by_cases htype : (rtp hdrLen >>> 1) &&& 0x3F ∈ iFrameTypes
        · by_cases hlen : hdrLen + 66 < len
          · have hleft : len - hdrLen - 2 - SKIP_PAYLOAD_PREFIX = len - (hdrLen + 66) := by omega
            have hless : ¬len - hdrLen ≤ 2 + SKIP_PAYLOAD_PREFIX := by omega
            simp only [if_neg hshort, if_pos hsingle, htype, hlen, hless, hleft, not_true_eq_false, if_false, and_self, if_true,
              Option.map_some]
            rfl
          · have hless : len - hdrLen ≤ 2 + SKIP_PAYLOAD_PREFIX := by omega
            simp only [if_neg hshort, if_pos hsingle, htype, hlen, hless, not_true_eq_false, if_false, and_false, if_true,
              Option.map_none]
        · simp only [if_neg hshort, if_pos hsingle, htype, not_false_eq_true, if_true, false_and, if_false, Option.map_none]
      · have hthree : ¬len - hdrLen < 3 := by omega
        by_cases htype : rtp (hdrLen + 2) &&& 0x3F ∈ iFrameTypes
        · simp only [if_neg hshort, if_neg hsingle, if_neg hthree, htype, not_true_eq_false, if_false, true_and]
          exact fragment_call (skipNow skipRemain (rtp (hdrLen + 2))) rtp len hdrLen _ rfl
        · simp only [if_neg hshort, if_neg hsingle, if_neg hthree, htype, not_false_eq_true, if_true, false_and, if_false,
            Option.map_none]

section Runs

variable (key : Vector UInt8 32)

/-- The call is the one that writes to the packet. -/
theorem processRtpPacket_call (skipRemain : Nat) (rtp : Mem) (len : Nat) :
    (processRtpPacket key skipRemain rtp len).2 =
      match zucCall skipRemain rtp len with
      | none => rtp
      | some call =>
        rtp.write (len - call.plaintext.length) (zuc256Crypt (zuc256InitState key call.iv) call.plaintext).1 := by
  rw [processRtpPacket_snd, zucCall_eq]
  cases hspan : forwardSpan skipRemain rtp len with
  | none => exact xor_maskOf_none key rtp len
  | some span =>
    have hlt := (forwardSpan_start hspan).1
    have hinit : zuc256Init key (rtp.read span.ivAt 16) = some (zuc256InitState key (rtp.read span.ivAt 16)) :=
      if_neg (by simp)
    have hback : len - (len - span.start) = span.start := by omega
    rw [← zucXor_eq, zucXor, hinit, Option.map_some]
    simp only [Span.call, length_read, hback]

/-- The call of a turn of the forwarder. -/
def Forwarder.call (f : Forwarder) (pkt : Packet) : Option ZucCall := zucCall f.skipRemain (f.load pkt) pkt.bytes.length

/-- The calls of a run of the forwarder. -/
def Forwarder.calls (f : Forwarder) : List Packet → List ZucCall
  | [] => []
  | pkt :: pkts => (f.call pkt).toList ++ Forwarder.calls (f.forward key pkt).1 pkts

/-- The calls are those of the turns. -/
theorem mem_calls {c : ZucCall} {f : Forwarder} {pkts : List Packet} :
    c ∈ f.calls key pkts ↔ ∃ earlier pkt later, pkts = earlier ++ pkt :: later ∧
      (Transducer.after (Forwarder.forward key) f earlier).call pkt = some c := by
  induction pkts generalizing f with
  | nil => simp [Forwarder.calls]
  | cons pkt pkts ih =>
    rw [Forwarder.calls, List.mem_append, Option.mem_toList, ih]
    constructor
    · rintro (hcall | ⟨earlier, p, later, rfl, hcall⟩)
      · exact ⟨[], pkt, pkts, rfl, hcall⟩
      · exact ⟨pkt :: earlier, p, later, rfl, hcall⟩
    · rintro ⟨earlier, p, later, hsplit, hcall⟩
      cases earlier with
      | nil =>
        obtain ⟨rfl, rfl⟩ := List.cons.inj hsplit
        exact .inl hcall
      | cons q earlier =>
        obtain ⟨rfl, rfl⟩ := List.cons.inj hsplit
        exact .inr ⟨earlier, p, later, rfl, hcall⟩

/-! ## The law and its condition -/

/-- No two calls encrypt different bytes with one IV under the key. -/
def NoReuse (calls : List ZucCall) : Prop := ∀ c ∈ calls, ∀ d ∈ calls, c.iv = d.iv → c.plaintext = d.plaintext

instance (calls : List ZucCall) : Decidable (NoReuse calls) := inferInstanceAs (Decidable (∀ c ∈ calls, _))

/-- A packet of an I-frame with something behind the bytes that stay clear, and the forwarder that it finds. -/
structure Arrival where
  found : Forwarder
  pkt : Packet
  span : Span

/-- The buffer with the packet in it. -/
def Arrival.buf (a : Arrival) : Mem := a.found.load a.pkt

/-- The packet arrives at a turn of a run. -/
structure ArrivesIn (stack : Mem) (pkts : List Packet) (a : Arrival) : Prop where
  turn : ∃ earlier later, pkts = earlier ++ a.pkt :: later ∧ a.found = Transducer.after (Forwarder.forward key) (.start stack) earlier
  span : forwardSpan a.found.skipRemain a.buf a.pkt.bytes.length = some a.span

/-- Packets that agree in the 16 bytes behind their headers agree behind the bytes that stay clear. -/
def HeadsDetermineRest (stack : Mem) (pkts : List Packet) : Prop :=
  ∀ a b, ArrivesIn key stack pkts a → ArrivesIn key stack pkts b →
    (∀ i < 16, a.buf (a.span.ivAt + i) = b.buf (b.span.ivAt + i)) →
      a.pkt.bytes.drop a.span.start = b.pkt.bytes.drop b.span.start

variable {key}

/-- The calls of a run are those of the packets that arrive in it. -/
theorem mem_calls_start {stack : Mem} {pkts : List Packet} {c : ZucCall} :
    c ∈ (Forwarder.start stack).calls key pkts ↔
      ∃ a, ArrivesIn key stack pkts a ∧ c = ⟨a.buf.read a.span.ivAt 16, a.pkt.bytes.drop a.span.start⟩ := by
  have hread : ∀ (m : Mem) (pkt : Packet) (start : Nat), start < pkt.bytes.length →
      (m.write 0 pkt.bytes).read start (pkt.bytes.length - start) = pkt.bytes.drop start := by
    intro m pkt start hstart
    refine List.ext_getElem (by simp) ?_
    intro i hi _
    rw [length_read] at hi
    rw [getElem_read, write_apply m (by omega), List.getElem_drop]
  rw [mem_calls]
  constructor
  · rintro ⟨earlier, pkt, later, hsplit, hcall⟩
    rw [Forwarder.call, zucCall_eq, Option.map_eq_some_iff] at hcall
    obtain ⟨span, hspan, rfl⟩ := hcall
    refine ⟨⟨_, pkt, span⟩, ⟨⟨earlier, later, hsplit, rfl⟩, hspan⟩, ?_⟩
    rw [Span.call, Arrival.buf, Forwarder.load, hread _ _ _ (forwardSpan_start hspan).1]
  · rintro ⟨⟨found, pkt, span⟩, ⟨⟨earlier, later, hsplit, hfound⟩, hspan⟩, rfl⟩
    refine ⟨earlier, pkt, later, hsplit, ?_⟩
    rw [← hfound, Forwarder.call, zucCall_eq]
    rw [Arrival.buf] at hspan
    rw [hspan, Option.map_some, Span.call, Arrival.buf, Forwarder.load, hread _ _ _ (forwardSpan_start hspan).1]

/-- The 16 bytes are equal one by one. -/
theorem read_sixteen_eq_iff {m m' : Mem} {p q : Nat} : m.read p 16 = m'.read q 16 ↔ ∀ i < 16, m (p + i) = m' (q + i) := by
  simp [Mem.read]

/-- Theorem 19 (keystream reuse). In every run of the forwarder no keystream is used for different bytes exactly when any two packets
of I-frames that agree in the 16 bytes behind their headers agree behind the bytes that stay clear. The calls are those that the
function makes: each turn writes to the packet what its call gives, and nothing else. -/
theorem forwarder_noReuse_iff (key : Vector UInt8 32) (stack : Mem) (pkts : List Packet) :
    (NoReuse ((Forwarder.start stack).calls key pkts) ↔ HeadsDetermineRest key stack pkts) ∧
      ∀ skipRemain rtp len, (processRtpPacket key skipRemain rtp len).2 =
        match zucCall skipRemain rtp len with
        | none => rtp
        | some call =>
          rtp.write (len - call.plaintext.length) (zuc256Crypt (zuc256InitState key call.iv) call.plaintext).1 := by
  refine ⟨?_, processRtpPacket_call key⟩
  constructor
  · intro hreuse a b ha hb hiv
    have hsame := hreuse _ (mem_calls_start.mpr ⟨a, ha, rfl⟩) _ (mem_calls_start.mpr ⟨b, hb, rfl⟩)
    exact hsame (read_sixteen_eq_iff.mpr hiv)
  · intro hrest c hc d hd hiv
    obtain ⟨a, ha, rfl⟩ := mem_calls_start.mp hc
    obtain ⟨b, hb, rfl⟩ := mem_calls_start.mp hd
    exact hrest a b ha hb (read_sixteen_eq_iff.mp hiv)

end Runs

/-- A packet with a bare header and an IDR unit of 67 bytes, which differ in the last one only. -/
def idrPacket (last : UInt8) : Packet where
  bytes := (0x80 :: List.replicate 11 0 : Bytes) ++ (0x26 :: 1 :: List.replicate 64 0 : Bytes) ++ [last]
  pos := Nat.succ_pos _
  le := Nat.le_of_ble_eq_true rfl

/-- Two such packets with different last bytes are encrypted with one keystream. -/
theorem idr_keystream_reused : ¬NoReuse ((Forwarder.start fun _ => 0).calls gSessionKey [idrPacket 0, idrPacket 1]) := by
  decide +kernel

end AuthVideo
