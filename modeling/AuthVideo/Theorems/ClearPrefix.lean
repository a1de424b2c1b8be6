import AuthVideo.Lemmas.RtpHeader

/-!
# Theorem 41: the clear bytes of a unit in fragments

The start bit sets `skip_remain` to 64 and each fragment takes off it what it leaves clear. So what stays clear over all fragments of
a unit are its first 64 bytes, however it was cut and whatever stands between the fragments.
-/

namespace AuthVideo

open CZuc

/-! ## Fragments -/

/-- A packet by itself, with zeros behind it. -/
def Packet.mem (pkt : Packet) : Mem := Mem.write (fun _ => 0) 0 pkt.bytes

/-- A fragment of a unit of type 19, 20 or 21. -/
def Packet.CarriesFragment (pkt : Packet) : Prop := FragmentIn pkt.mem pkt.bytes.length

instance (pkt : Packet) : Decidable pkt.CarriesFragment := inferInstanceAs (Decidable (FragmentIn _ _))

/-- The start bit of a fragment. -/
def Packet.StartBit (pkt : Packet) : Prop := pkt.mem (headerEnd pkt.mem + 2) &&& 0x80 ≠ 0

instance (pkt : Packet) : Decidable pkt.StartBit := inferInstanceAs (Decidable (_ ≠ _))

/-- The payload of a fragment, and nothing of any other packet. -/
def Packet.fragmentPayload (pkt : Packet) : Bytes := if pkt.CarriesFragment then pkt.bytes.drop (headerEnd pkt.mem + 3) else []

/-- The place lies in the range that the call hands to the cipher. -/
def handed (skipRemain : Nat) (rtp : Mem) (len i : Nat) : Bool :=
  (forwardSpan skipRemain rtp len).any fun span => decide (span.start ≤ i) && decide (i < len)

variable (key : Vector UInt8 32)

/-- What is handed over is what `process_rtp_packet` calls the cipher on. -/
theorem processRtpPacket_handed (skipRemain : Nat) (rtp : Mem) (len : Nat) :
    ((∀ i, handed skipRemain rtp len i = false) ∧ (processRtpPacket key skipRemain rtp len).2 = rtp) ∨
      ∃ ivAt start, (∀ i, handed skipRemain rtp len i = true ↔ start ≤ i ∧ i < len) ∧
        (processRtpPacket key skipRemain rtp len).2 = zucXor key rtp ivAt start (len - start) := by
  rw [processRtpPacket_zucXor]
  simp only [handed]
  cases forwardSpan skipRemain rtp len with
  | none => exact .inl ⟨fun _ => rfl, rfl⟩
  | some span =>
    refine .inr ⟨span.ivAt, span.start, ?_, rfl⟩
    intro i
    rw [Option.any_some, Bool.and_eq_true, decide_eq_true_eq, decide_eq_true_eq]

/-- A turn of the forwarder, with what it does to each byte of the payload of a fragment: whether it hands it to the cipher. -/
def Forwarder.watch (f : Forwarder) (pkt : Packet) : Forwarder × List Bool :=
  ((f.forward key pkt).1, (List.range pkt.fragmentPayload.length).map fun i =>
    handed f.skipRemain (f.load pkt) pkt.bytes.length (headerEnd pkt.mem + 3 + i))

/-! ## A turn -/

/-- The buffer holds the packet. -/
theorem load_eq_mem (f : Forwarder) (pkt : Packet) : ∀ i < pkt.bytes.length, f.load pkt i = pkt.mem i := by
  intro i hi
  rw [Forwarder.load, Packet.mem, write_apply _ hi, write_apply _ hi]

/-- The bytes of a fragment that are handed over are those that the counter does not cover. -/
theorem handed_fragment (skipRemain : Nat) {rtp : Mem} {len : Nat} (h : FragmentIn rtp len) :
    ((List.range (len - (headerEnd rtp + 3))).map fun i => handed skipRemain rtp len (headerEnd rtp + 3 + i)) =
      Transducer.marks (skipNow skipRemain (rtp (headerEnd rtp + 2))) (len - (headerEnd rtp + 3)) := by
  have htype : originalType rtp ∈ iFrameTypes := by
    rw [originalType, if_pos h.fu]
    exact h.type
  have hwhole := h.whole
  have hplace : ∀ i < len - (headerEnd rtp + 3), handed skipRemain rtp len (headerEnd rtp + 3 + i) =
      decide (skipNow skipRemain (rtp (headerEnd rtp + 2)) ≤ i) := by
    intro i hi
    rw [handed, forwardSpan_eq, if_pos htype, if_pos h.fu]
    by_cases hlen : headerEnd rtp + 3 + skipNow skipRemain (rtp (headerEnd rtp + 2)) < len
    · rw [if_pos hlen, Option.any_some, decide_eq_true (by omega : headerEnd rtp + 3 + i < len), Bool.and_true]
      exact decide_eq_decide.mpr (by dsimp only; omega)
    · rw [if_neg hlen, Option.any_none]
      exact (decide_eq_false (by omega)).symm
  refine List.ext_getElem (by simp [Transducer.marks]; omega) ?_
  intro i hi hi'
  rw [List.length_map, List.length_range] at hi
  rw [List.getElem_map, List.getElem_range, hplace i hi]
  simp only [Transducer.marks, List.getElem_append, List.getElem_replicate, List.length_replicate]
  split
  · exact decide_eq_false (by omega)
  · exact decide_eq_true (by omega)

/-- The turn lemma. A fragment leaves clear what the counter allows and takes it off the counter. -/
theorem watch_fragment {pkt : Packet} (h : pkt.CarriesFragment) (f : Forwarder) :
    (f.watch key pkt).2 =
        Transducer.marks (skipNow f.skipRemain (pkt.mem (headerEnd pkt.mem + 2))) pkt.fragmentPayload.length ∧
      (f.watch key pkt).1.skipRemain =
        skipNow f.skipRemain (pkt.mem (headerEnd pkt.mem + 2)) - pkt.fragmentPayload.length := by
  obtain ⟨hload, hend⟩ := FragmentIn.congr (fun i hi => (load_eq_mem f pkt i hi).symm) h
  have hpayload : pkt.fragmentPayload.length = pkt.bytes.length - (headerEnd (f.load pkt) + 3) := by
    rw [Packet.fragmentPayload, if_pos h, List.length_drop, hend]
  have hbyte : f.load pkt (headerEnd (f.load pkt) + 2) = pkt.mem (headerEnd pkt.mem + 2) := by
    have := h.whole
    rw [hend, load_eq_mem f pkt _ (by omega)]
  constructor
  · have hmarks := handed_fragment f.skipRemain hload
    rw [Forwarder.watch, hpayload, ← hbyte, ← hmarks, hend]
  · have hfst := processRtpPacket_fst_of_fragment key f.skipRemain hload
    rw [hpayload, ← hbyte, ← hfst]
    rfl

/-- The turn lemma for every other packet: no byte of a fragment, and the counter stays. -/
theorem watch_other {pkt : Packet} (h : ¬pkt.CarriesFragment) (f : Forwarder) :
    (f.watch key pkt).2 = [] ∧ (f.watch key pkt).1.skipRemain = f.skipRemain := by
  have hload : ¬FragmentIn (f.load pkt) pkt.bytes.length := fun hload =>
    h (FragmentIn.congr (load_eq_mem f pkt) hload).1
  constructor
  · rw [Forwarder.watch, Packet.fragmentPayload, if_neg h]
    rfl
  · exact processRtpPacket_fst_of_not_fragment key f.skipRemain hload

/-- Without a start bit the counter is the one that the earlier packets left. -/
theorem watch_of_not_starts {pkt : Packet} (h : pkt.CarriesFragment → ¬pkt.StartBit) (f : Forwarder) :
    (f.watch key pkt).2 = Transducer.marks f.skipRemain pkt.fragmentPayload.length ∧
      (f.watch key pkt).1.skipRemain = f.skipRemain - pkt.fragmentPayload.length := by
  by_cases hfragment : pkt.CarriesFragment
  · have hnow : skipNow f.skipRemain (pkt.mem (headerEnd pkt.mem + 2)) = f.skipRemain := if_neg (h hfragment)
    have hturn := watch_fragment key hfragment f
    rwa [hnow] at hturn
  · obtain ⟨hout, hnext⟩ := watch_other key hfragment f
    rw [Packet.fragmentPayload, if_neg hfragment]
    exact ⟨by rw [hout, List.length_nil, Transducer.marks_zero], hnext⟩

/-- The start bit sets the counter. -/
theorem watch_of_starts {pkt : Packet} (h : pkt.CarriesFragment) (hstart : pkt.StartBit) (f : Forwarder) :
    (f.watch key pkt).2 = Transducer.marks SKIP_PAYLOAD_PREFIX pkt.fragmentPayload.length ∧
      (f.watch key pkt).1.skipRemain = SKIP_PAYLOAD_PREFIX - pkt.fragmentPayload.length := by
  have hnow : skipNow f.skipRemain (pkt.mem (headerEnd pkt.mem + 2)) = SKIP_PAYLOAD_PREFIX := if_pos hstart
  have hturn := watch_fragment key h f
  rwa [hnow] at hturn

/-! ## Runs -/

/-- The run lemma. Over packets without a start bit the counter is counted down. -/
theorem watch_run {pkts : List Packet} (h : ∀ pkt ∈ pkts, pkt.CarriesFragment → ¬pkt.StartBit) (f : Forwarder) :
    (Transducer.run (Forwarder.watch key) f pkts).flatten =
      Transducer.marks f.skipRemain (pkts.map Packet.fragmentPayload).flatten.length :=
  Transducer.flatten_run_of_counter Forwarder.skipRemain Packet.fragmentPayload
    (fun pkt hpkt f => watch_of_not_starts key (h pkt hpkt) f) f

/-- Theorem 41 (clear prefix). Let the fragments of I-frames among some packets be those of one unit, with the start bit on the first
only. From any state of the forwarder the first 64 bytes of their payloads together, or all of them if there are fewer, stay outside
the ranges that are handed to the cipher, and every later byte lies inside. The ranges are those of the calls: what
`process_rtp_packet` leaves in memory is what the cipher makes of the places that are handed over. -/
theorem first_bytes_stay_clear {pkts : List Packet} {first : Packet} {rest : List Packet}
    (hfragments : (pkts.filter fun pkt => pkt.CarriesFragment) = first :: rest) (hfirst : first.StartBit)
    (hrest : ∀ pkt ∈ rest, ¬pkt.StartBit) (f : Forwarder) :
    (Transducer.run (Forwarder.watch key) f pkts).flatten =
        List.replicate (min 64 (pkts.map Packet.fragmentPayload).flatten.length) false ++
          List.replicate ((pkts.map Packet.fragmentPayload).flatten.length - 64) true ∧
      ∀ skipRemain rtp len,
        ((∀ i, handed skipRemain rtp len i = false) ∧ (processRtpPacket key skipRemain rtp len).2 = rtp) ∨
          ∃ ivAt start, (∀ i, handed skipRemain rtp len i = true ↔ start ≤ i ∧ i < len) ∧
            (processRtpPacket key skipRemain rtp len).2 = zucXor key rtp ivAt start (len - start) := by
  refine ⟨?_, processRtpPacket_handed key⟩
  obtain ⟨before, after, rfl, hbefore, hfragment, hafter⟩ := List.filter_eq_cons_iff.mp hfragments
  have hstarts : ∀ pkt ∈ after, pkt.CarriesFragment → ¬pkt.StartBit := by
    intro pkt hpkt hfrag
    refine hrest pkt ?_
    rw [← hafter, List.mem_filter]
    exact ⟨hpkt, decide_eq_true hfrag⟩
  have hothers : ∀ pkt ∈ before, ¬pkt.CarriesFragment := fun pkt hpkt => of_decide_eq_false (by simpa using hbefore pkt hpkt)
  have hempty : (before.map Packet.fragmentPayload).flatten = [] := by
    rw [List.flatten_eq_nil_iff]
    intro payload hpayload
    obtain ⟨pkt, hpkt, rfl⟩ := List.mem_map.mp hpayload
    exact if_neg (hothers pkt hpkt)
  obtain ⟨hout, hnext⟩ :=
    watch_of_starts key (of_decide_eq_true hfragment) hfirst (Transducer.after (Forwarder.watch key) f before)
  rw [Transducer.run_append, List.flatten_append, watch_run key (fun pkt hpkt hfrag => absurd hfrag (hothers pkt hpkt)),
    Transducer.run_cons, List.flatten_cons, watch_run key hstarts, hout, hnext, hempty, List.length_nil,
    Transducer.marks_zero, List.nil_append, Transducer.marks_append, List.map_append, List.flatten_append, hempty,
    List.nil_append, List.map_cons, List.flatten_cons, List.length_append]
  rfl

/-- The bytes of a packet with a bare header and a fragment of `n` zeros. -/
def fuBytes (fuHeader : UInt8) (n : Nat) : Bytes :=
  (0x80 :: List.replicate 11 0 : Bytes) ++ (0x62 :: 1 :: fuHeader :: List.replicate n 0 : Bytes)

/-- An IDR unit in fragments of 60 and 10 bytes, with a fragment of a unit of type 1 between them. -/
theorem first_bytes_stay_clear_idr :
    (Transducer.run (Forwarder.watch (.replicate 32 0x11)) (.start fun _ => 0)
      [⟨fuBytes 0x93 60, by decide, by decide⟩, ⟨fuBytes 0x81 5, by decide, by decide⟩,
        ⟨fuBytes 0x53 10, by decide, by decide⟩]).flatten =
        List.replicate 64 false ++ List.replicate 6 true := by
  have hfragments : (([⟨fuBytes 0x93 60, by decide, by decide⟩, ⟨fuBytes 0x81 5, by decide, by decide⟩,
      ⟨fuBytes 0x53 10, by decide, by decide⟩] : List Packet).filter fun pkt => pkt.CarriesFragment) =
        [⟨fuBytes 0x93 60, by decide, by decide⟩, ⟨fuBytes 0x53 10, by decide, by decide⟩] := by decide +kernel
  rw [(first_bytes_stay_clear (.replicate 32 0x11) hfragments (by decide +kernel) (by decide +kernel) _).1]
  decide +kernel

end AuthVideo
