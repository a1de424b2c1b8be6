import AuthVideo.Xop.RtpConnection
import Mathlib.Data.List.Dedup
import Mathlib.Data.List.Forall2

/-!
# Copies that several clients write their headers into

A client's event overwrites the first sixteen bytes of its copy and no others, so the packet in a copy stays what it is. What
waits in the queue of a client is therefore what was posted to it, less what its events have taken.
-/

namespace AuthVideo.Xop

/-! ## Copies -/

namespace RtpBuffer

/-- A write within the first sixteen bytes leaves the packet alone. -/
theorem packet_write {buf : RtpBuffer} {pos : ℕ} {bytes : Bytes} (hpos : pos + bytes.length ≤ 16) (hlen : 16 ≤ buf.data.length) :
    (buf.write pos bytes).packet = buf.packet := by
  have htake : (buf.data.take pos).length = pos := by
    rw [List.length_take]
    omega
  have hdrop : (buf.write pos bytes).data.drop 16 = buf.data.drop 16 := by
    unfold write
    dsimp only
    rw [List.drop_append, List.length_append, htake, List.drop_eq_nil_of_le (by rw [List.length_append, htake]; omega), List.nil_append,
      List.drop_drop]
    congr 1
    omega
  unfold packet
  rw [hdrop]
  rfl

theorem length_write {buf : RtpBuffer} {pos : ℕ} {bytes : Bytes} (h : pos + bytes.length ≤ buf.data.length) :
    (buf.write pos bytes).data.length = buf.data.length := by
  simp only [write, List.length_append, List.length_take, List.length_drop]
  omega

/-- A copy of a packet of a source. -/
structure CopyOf (buf : RtpBuffer) (pkt : SourcePacket) : Prop where
  packet : buf.packet = ⟨pkt.payload, pkt.timestamp, pkt.last⟩
  length : buf.data.length = 16 + pkt.payload.length

theorem copyOf_copy (head : Vector UInt8 16) (pkt : SourcePacket) : CopyOf (copy head pkt) pkt := by
  constructor
  · simp [copy, RtpBuffer.packet]
  · simp [copy]

theorem CopyOf.write {buf : RtpBuffer} {pkt : SourcePacket} (h : CopyOf buf pkt) {pos : ℕ} {bytes : Bytes}
    (hpos : pos + bytes.length ≤ 16) : CopyOf (buf.write pos bytes) pkt := by
  have hlen := h.length
  exact ⟨by rw [packet_write hpos (by omega), h.packet], by rw [length_write (by omega), h.length]⟩

end RtpBuffer

/-! ## One event -/

namespace RtpConnection

@[simp] theorem scheduler_setInfo (channel : MediaChannelId) (info : MediaChannelInfo) (c : RtpConnection) :
    (c.setInfo channel info).scheduler = c.scheduler := rfl

@[simp] theorem scheduler_setFrameType (type : UInt8) (c : RtpConnection) : (c.setFrameType type).scheduler = c.scheduler := by
  unfold setFrameType
  split <;> rfl

@[simp] theorem info_setFrameType (type : UInt8) (c : RtpConnection) : (c.setFrameType type).info = c.info := by
  unfold setFrameType
  split <;> rfl

@[simp] theorem scheduler_teardown (c : RtpConnection) : c.teardown.scheduler = c.scheduler := by
  unfold teardown
  split <;> rfl

/-- The number of a channel and its source, which only an event changes. -/
def number (channel : MediaChannelId) (c : RtpConnection) : UInt32 × UInt16 := ((c.info channel).ssrc, (c.info channel).packetSeq)

@[simp] theorem number_teardown (channel : MediaChannelId) (c : RtpConnection) : number channel c.teardown = number channel c := by
  unfold teardown
  split <;> rfl

@[simp] theorem info_setInfo (channel : MediaChannelId) (info : MediaChannelInfo) (c : RtpConnection) :
    (c.setInfo channel info).info channel = info := Function.update_self ..

theorem info_setInfo_of_ne {channel channel' : MediaChannelId} (h : channel ≠ channel') (info : MediaChannelInfo) (c : RtpConnection) :
    (c.setInfo channel' info).info channel = c.info channel := Function.update_of_ne h ..

/-- A change that keeps the number of its channel keeps all of them. -/
theorem number_setInfo (channel : MediaChannelId) {channel' : MediaChannelId} {info : MediaChannelInfo} {c : RtpConnection}
    (h : (info.ssrc, info.packetSeq) = c.number channel') : number channel (c.setInfo channel' info) = number channel c := by
  by_cases heq : channel = channel'
  · subst heq
    rw [number, info_setInfo, h]
  · rw [number, info_setInfo_of_ne heq]
    rfl

theorem number_play (channel : MediaChannelId) (c : RtpConnection) : number channel c.play = number channel c := by
  unfold number play
  dsimp only
  split <;> rfl

theorem number_record (channel : MediaChannelId) (c : RtpConnection) : number channel c.record = number channel c := by
  unfold number record
  dsimp only
  split <;> rfl

end RtpConnection

/-- What is given to the socket or to its queue for a packet under its number: the header and the payload, behind four bytes with
their length where the stream is interleaved. -/
def Frames (ssrc : UInt32) (d : Datagram) (out : Bytes × Bytes) : Prop :=
  (∃ payload, out.2 = rtpHeaderBytes payload ssrc d.seq d.pkt.timestamp d.pkt.last ++ d.pkt.payload) ∧
    (out.1 = [] ∨ ∃ channel, out.1 = [36, channel, .ofNat (out.2.length / 256), .ofNat out.2.length])

/-- One more packet is numbered behind the others. -/
theorem numbered_append_singleton (seq : UInt16) (pkts : List RtpPacket) (pkt : RtpPacket) :
    numbered seq (pkts ++ [pkt]) = numbered seq pkts ++ [⟨seq + .ofNat pkts.length, pkt⟩] := by
  induction pkts generalizing seq with
  | nil => simp [numbered]
  | cons first pkts ih =>
    rw [List.cons_append, numbered, ih, numbered, List.length_cons, UInt16.ofNat_add, List.cons_append]
    congr 4
    rw [UInt16.add_assoc]
    congr 1
    exact UInt16.add_comm _ _

namespace RtpBuffer

/-- The copy with a header in it. -/
theorem drop_write_header {buf : RtpBuffer} {header : Bytes} (hheader : header.length = 12) (hlen : 16 ≤ buf.data.length) :
    (buf.write 4 header).data.drop 4 = header ++ buf.data.drop 16 := by
  have htake : (buf.data.take 4).length = 4 := by
    rw [List.length_take]
    omega
  unfold write
  dsimp only
  rw [List.append_assoc, List.drop_left' htake, hheader]

/-- The copy with the four bytes of the interleaved mode. -/
theorem write_head (buf : RtpBuffer) (head : Bytes) (hhead : head.length = 4) :
    (buf.write 0 head).data.take 4 = head ∧ (buf.write 0 head).data.drop 4 = buf.data.drop 4 := by
  unfold write
  dsimp only
  rw [List.take_zero, List.nil_append, List.take_left' hhead, List.drop_left' hhead, hhead]
  exact ⟨rfl, rfl⟩

end RtpBuffer

namespace Streams

/-- What an event leaves of the state: a number more where it has sent its packet, and the same packets in the copies. -/
structure Delivered (s s' : Streams) (e : Post) (pkt : SourcePacket) (event : StreamEvent) : Prop where
  queue : s'.queue = s.queue
  posting : s'.posting = s.posting
  copies : ∃ buf, RtpBuffer.CopyOf buf pkt ∧ s'.copies = s.copies.set e.copy buf
  scheduler : ∀ client, (s'.clients client).scheduler = (s.clients client).scheduler
  other : ∀ client channel, (client, channel) ≠ (e.client, e.channel) →
    (s'.clients client).number channel = (s.clients client).number channel
  own : (event = .silent ∧ (s'.clients e.client).number e.channel = (s.clients e.client).number e.channel) ∨
    ∃ head rtp, event = .handed e.client e.channel head rtp ∧
      Frames ((s.clients e.client).number e.channel).1
        ⟨((s.clients e.client).number e.channel).2, ⟨pkt.payload, pkt.timestamp, pkt.last⟩⟩ (head, rtp) ∧
      (s'.clients e.client).number e.channel =
        (((s.clients e.client).number e.channel).1, ((s.clients e.client).number e.channel).2 + 1)

/-- Only the one client is another. -/
theorem clients_setClient (s : Streams) (client client' : ℕ) (c : RtpConnection) :
    (s.setClient client c).clients client' = if client' = client then c else s.clients client' := by
  unfold setClient
  dsimp only
  rw [Function.update_apply]

/-- A client that changes and keeps its scheduler and the numbers of the other channels. -/
theorem kept_setClient {s : Streams} {client : ℕ} {c : RtpConnection} (channel : MediaChannelId)
    (hscheduler : c.scheduler = (s.clients client).scheduler)
    (hnumber : ∀ channel', channel' ≠ channel → c.number channel' = (s.clients client).number channel') :
    (∀ client', ((s.setClient client c).clients client').scheduler = (s.clients client').scheduler) ∧
      ∀ client' channel', (client', channel') ≠ (client, channel) →
        ((s.setClient client c).clients client').number channel' = (s.clients client').number channel' := by
  constructor
  · intro client'
    rw [clients_setClient]
    split
    · rename_i heq
      rw [hscheduler, heq]
    · rfl
  · intro client' channel' hne
    rw [clients_setClient]
    split
    · rename_i heq
      subst heq
      refine hnumber channel' fun hchannel => hne ?_
      rw [hchannel]
    · rfl

/-- The event of `SendRtpPacket`. -/
theorem deliver_spec {s s' : Streams} {e : Post} {pkt : SourcePacket} {buf : RtpBuffer} {sent : Bool} {event : StreamEvent}
    (hbuf : RtpBuffer.CopyOf buf pkt) (h : s.deliver sent e buf = (event, s')) : Delivered s s' e pkt event := by
  have hlen := hbuf.length
  have hfits := pkt.fits
  set c := (s.clients e.client).setFrameType buf.type with hc
  have hnumber : ∀ channel, c.number channel = (s.clients e.client).number channel := fun channel => by
    rw [hc, RtpConnection.number, RtpConnection.info_setFrameType]
    rfl
  have hscheduler : c.scheduler = (s.clients e.client).scheduler := RtpConnection.scheduler_setFrameType _ _
  unfold deliver RtpConnection.setRtpHeader at h
  rw [← hc] at h
  dsimp only at h
  by_cases hsends : c.sends e.channel = true
  · rw [if_pos hsends] at h
    set header := rtpHeaderBytes (c.info e.channel).payload (c.info e.channel).ssrc (c.info e.channel).packetSeq buf.timestamp buf.last
      with hheader
    set c' := c.setInfo e.channel { c.info e.channel with packetSeq := (c.info e.channel).packetSeq + 1 } with hc'
    have hsends' : c'.sends e.channel = true := by
      rw [hc', RtpConnection.sends, RtpConnection.info_setInfo]
      exact hsends
    have hwritten : RtpBuffer.CopyOf (buf.write 4 header) pkt := hbuf.write (by rw [hheader]; rfl)
    have hnumber' : c'.number e.channel = (((s.clients e.client).number e.channel).1, ((s.clients e.client).number e.channel).2 + 1) := by
      rw [← hnumber, hc', RtpConnection.number, RtpConnection.info_setInfo]
      rfl
    have hothers : ∀ channel, channel ≠ e.channel → c'.number channel = (s.clients e.client).number channel := by
      intro channel hne
      rw [← hnumber, hc', RtpConnection.number, RtpConnection.info_setInfo_of_ne hne]
      rfl
    have hrtp : (buf.write 4 header).data.drop 4 = header ++ pkt.payload := by
      have hpayload := congrArg RtpPacket.payload hbuf.packet
      rw [RtpBuffer.drop_write_header (by rw [hheader]; rfl) (by omega)]
      exact congrArg _ hpayload
    have hframes : ∀ head, (head = [] ∨ ∃ channel, head =
        [36, channel, .ofNat ((header ++ pkt.payload).length / 256), .ofNat (header ++ pkt.payload).length]) →
        Frames ((s.clients e.client).number e.channel).1
          ⟨((s.clients e.client).number e.channel).2, ⟨pkt.payload, pkt.timestamp, pkt.last⟩⟩ (head, header ++ pkt.payload) := by
      intro head hhead
      refine ⟨⟨(c.info e.channel).payload, ?_⟩, hhead⟩
      have htimestamp := congrArg RtpPacket.timestamp hbuf.packet
      have hlast := congrArg RtpPacket.last hbuf.packet
      have hssrc : (c.info e.channel).ssrc = ((s.clients e.client).number e.channel).1 := by rw [← hnumber]; rfl
      have hseq : (c.info e.channel).packetSeq = ((s.clients e.client).number e.channel).2 := by rw [← hnumber]; rfl
      simp only [RtpBuffer.packet] at htimestamp hlast
      rw [hheader, hssrc, hseq, htimestamp, hlast]
    dsimp only at h
    rw [if_pos hsends'] at h
    by_cases htcp : c'.overTcp = true
    · rw [if_pos htcp] at h
      cases h
      have hhead := RtpBuffer.write_head (buf.write 4 header) (c'.tcpHead e.channel (buf.write 4 header)) rfl
      obtain ⟨hsched, hother⟩ := kept_setClient (s := s) (c := c') e.channel hscheduler hothers
      refine ⟨rfl, rfl, ⟨_, hwritten.write (by exact Nat.le_of_ble_eq_true rfl), rfl⟩, hsched, hother, Or.inr ⟨_, _, rfl, ?_, ?_⟩⟩
      · rw [hhead.1, hhead.2, hrtp]
        refine hframes _ (Or.inr ⟨(c'.info e.channel).rtpChannel, ?_⟩)
        have htotal : (buf.write 4 header).data.length - 4 = (header ++ pkt.payload).length := by
          rw [← hrtp, List.length_drop]
        rw [RtpConnection.tcpHead, htotal]
      · rw [clients_setClient, if_pos rfl, hnumber']
    · rw [if_neg htcp] at h
      cases h
      have hkept : (if sent then c' else c'.teardown).scheduler = c'.scheduler ∧
          ∀ channel, (if sent then c' else c'.teardown).number channel = c'.number channel := by
        split
        · exact ⟨rfl, fun _ => rfl⟩
        · exact ⟨RtpConnection.scheduler_teardown _, fun channel => RtpConnection.number_teardown channel _⟩
      obtain ⟨hsched, hother⟩ := kept_setClient (s := s) (c := if sent then c' else c'.teardown) e.channel
        (hkept.1.trans hscheduler) fun channel hne => (hkept.2 channel).trans (hothers channel hne)
      refine ⟨rfl, rfl, ⟨_, hwritten, rfl⟩, hsched, hother, Or.inr ⟨_, _, rfl, ?_, ?_⟩⟩
      · rw [hrtp]
        exact hframes _ (Or.inl rfl)
      · rw [clients_setClient, if_pos rfl, hkept.2, hnumber']
  · rw [if_neg hsends] at h
    dsimp only at h
    rw [if_neg hsends] at h
    cases h
    obtain ⟨hsched, hother⟩ := kept_setClient (s := s) (c := c) e.channel hscheduler fun channel _ => hnumber channel
    refine ⟨rfl, rfl, ⟨buf, hbuf, rfl⟩, hsched, hother, Or.inl ⟨rfl, ?_⟩⟩
    rw [clients_setClient, if_pos rfl, hnumber]

/-! ## What waits -/

/-- The packet of an event. -/
def packetAt (s : Streams) (e : Post) : Option RtpPacket := (s.copies[e.copy]?).map RtpBuffer.packet

/-- The packets of some events for a channel of a client. -/
def packetsFor (s : Streams) (client : ℕ) (channel : MediaChannelId) (events : List Post) : List RtpPacket :=
  events.filterMap fun e => if e.client = client ∧ e.channel = channel then s.packetAt e else none

/-- A call or an event whose packet was pushed to its client, and whose copy holds that packet. -/
def Pushed (log : List (StreamStep × StreamEvent)) (s : Streams) (e : Post) : Prop :=
  ∃ thread pkt multicast targets heads event, (StreamStep.push thread e.channel pkt multicast targets heads, event) ∈ log ∧
    e.client ∈ targets ∧ ∃ buf, s.copies[e.copy]? = some buf ∧ RtpBuffer.CopyOf buf pkt

/-- The copies hold what they held. -/
def KeepsCopies (s s' : Streams) : Prop :=
  ∀ (i : ℕ) buf pkt, s.copies[i]? = some buf → RtpBuffer.CopyOf buf pkt → ∃ buf', s'.copies[i]? = some buf' ∧ RtpBuffer.CopyOf buf' pkt

theorem keepsCopies_of_eq {s s' : Streams} (h : s'.copies = s.copies) : KeepsCopies s s' :=
  fun i buf pkt hbuf hcopy => ⟨buf, by rw [h]; exact hbuf, hcopy⟩

theorem keepsCopies_of_append {s s' : Streams} {more : List RtpBuffer} (h : s'.copies = s.copies ++ more) : KeepsCopies s s' := by
  intro i buf pkt hbuf hcopy
  refine ⟨buf, ?_, hcopy⟩
  obtain ⟨hi, -⟩ := List.getElem?_eq_some_iff.mp hbuf
  rw [h, List.getElem?_append_left hi, hbuf]

theorem Pushed.mono {log more : List (StreamStep × StreamEvent)} {s s' : Streams} {e : Post} (h : Pushed log s e)
    (hkeeps : KeepsCopies s s') : Pushed (log ++ more) s' e := by
  obtain ⟨thread, pkt, multicast, targets, heads, event, hmem, htarget, buf, hbuf, hcopy⟩ := h
  obtain ⟨buf', hbuf', hcopy'⟩ := hkeeps _ _ _ hbuf hcopy
  exact ⟨thread, pkt, multicast, targets, heads, event, List.mem_append_left _ hmem, htarget, buf', hbuf', hcopy'⟩

theorem Pushed.packetAt {log : List (StreamStep × StreamEvent)} {s s' : Streams} {e : Post} (h : Pushed log s e)
    (hkeeps : KeepsCopies s s') : s'.packetAt e = s.packetAt e := by
  obtain ⟨thread, pkt, multicast, targets, heads, event, hmem, htarget, buf, hbuf, hcopy⟩ := h
  obtain ⟨buf', hbuf', hcopy'⟩ := hkeeps _ _ _ hbuf hcopy
  unfold Streams.packetAt
  rw [hbuf, hbuf', Option.map_some, Option.map_some, hcopy.packet, hcopy'.packet]

/-- Events keep their packets with the copies. -/
theorem packetsFor_of_keeps {log : List (StreamStep × StreamEvent)} {s s' : Streams} {events : List Post} (hkeeps : KeepsCopies s s')
    (h : ∀ e ∈ events, Pushed log s e) (client : ℕ) (channel : MediaChannelId) :
    s'.packetsFor client channel events = s.packetsFor client channel events := by
  refine List.filterMap_congr fun e he => ?_
  rw [(h e he).packetAt hkeeps]

/-! ## The invariant -/

/-- What went out on a channel of a client: some of the packets that its events have taken, in their order, under numbers that
follow each other from the first one on. -/
structure Stream (c : RtpConnection) (log : List (StreamStep × StreamEvent)) (s : Streams) (client : ℕ) (channel : MediaChannelId)
    (taken pkts : List RtpPacket) : Prop where
  posted : postedTo client channel log = taken ++ s.packetsFor client channel (s.queue c.scheduler)
  sublist : pkts.Sublist taken
  sent : List.Forall₂ (Frames (c.number channel).1) (numbered (c.number channel).2 pkts) (handedTo client channel log)
  number : (s.clients client).number channel = ((c.number channel).1, (c.number channel).2 + .ofNat pkts.length)

/-- What every step keeps. -/
structure Sound (clients : ℕ → RtpConnection) (log : List (StreamStep × StreamEvent)) (s : Streams) : Prop where
  scheduler : ∀ client, (s.clients client).scheduler = (clients client).scheduler
  queued : ∀ scheduler, ∀ e ∈ s.queue scheduler, Pushed log s e ∧ (clients e.client).scheduler = scheduler
  posting : ∀ thread, ∀ e ∈ (s.posting thread).2, Pushed log s e
  stream : ∀ client channel, ∃ taken pkts, Stream (clients client) log s client channel taken pkts
  source : ∀ client channel, ∀ p ∈ postedTo client channel log, ∃ thread pkt multicast targets heads event,
    (StreamStep.push thread channel pkt multicast targets heads, event) ∈ log ∧ client ∈ targets ∧
      p = ⟨pkt.payload, pkt.timestamp, pkt.last⟩

theorem sound_start (clients : ℕ → RtpConnection) : Sound clients [] (start clients) where
  scheduler _ := rfl
  queued _ e he := by cases he
  posting _ e he := by cases he
  stream client channel := ⟨[], [], rfl, List.Sublist.refl _, List.Forall₂.nil, by simp [start]⟩
  source _ _ p hp := by cases hp

/-- A step of which there is nothing to see, that keeps the queues, the copies, the schedulers and the numbers. -/
theorem Sound.silent {clients : ℕ → RtpConnection} {log : List (StreamStep × StreamEvent)} {s s' : Streams} {i : StreamStep}
    (h : Sound clients log s) (hqueue : s'.queue = s.queue) (hkeeps : KeepsCopies s s')
    (hscheduler : ∀ client, (s'.clients client).scheduler = (s.clients client).scheduler)
    (hnumber : ∀ client channel, (s'.clients client).number channel = (s.clients client).number channel)
    (hposting : ∀ thread, ∀ e ∈ (s'.posting thread).2, Pushed (log ++ [(i, .silent)]) s' e) :
    Sound clients (log ++ [(i, .silent)]) s' where
  scheduler client := (hscheduler client).trans (h.scheduler client)
  queued scheduler e he := by
    rw [hqueue] at he
    exact ⟨(h.queued scheduler e he).1.mono hkeeps, (h.queued scheduler e he).2⟩
  posting := hposting
  stream client channel := by
    obtain ⟨taken, pkts, hposted, hsub, hsent, hnum⟩ := h.stream client channel
    refine ⟨taken, pkts, ?_, hsub, ?_, by rw [hnumber, hnum]⟩
    · rw [hqueue, packetsFor_of_keeps hkeeps fun e he => (h.queued _ e he).1]
      simpa [postedTo] using hposted
    · simpa [handedTo] using hsent
  source client channel p hp := by
    have hp' : p ∈ postedTo client channel log := by simpa [postedTo] using hp
    obtain ⟨thread, pkt, multicast, targets, heads, event, hmem, hrest⟩ := h.source client channel p hp'
    exact ⟨thread, pkt, multicast, targets, heads, event, List.mem_append_left _ hmem, hrest⟩

/-- Pushing makes copies and calls for them. -/
theorem Sound.push {clients : ℕ → RtpConnection} {log : List (StreamStep × StreamEvent)} {s : Streams} (h : Sound clients log s)
    (thread : ℕ) (channel : MediaChannelId) (pkt : SourcePacket) (multicast : Bool) (targets : List ℕ) (heads : ℕ → Vector UInt8 16) :
    Sound clients (log ++ [(.push thread channel pkt multicast targets heads, .silent)])
      { s with
        copies := s.copies ++ (s.push channel pkt targets heads).1
        posting := Function.update s.posting thread (multicast, (s.push channel pkt targets heads).2) } := by
  have hkeeps : KeepsCopies s
      { s with
        copies := s.copies ++ (s.push channel pkt targets heads).1
        posting := Function.update s.posting thread (multicast, (s.push channel pkt targets heads).2) } :=
    keepsCopies_of_append rfl
  refine h.silent rfl hkeeps (fun _ => rfl) (fun _ _ => rfl) fun thread' e he => ?_
  dsimp only at he
  rw [Function.update_apply] at he
  split at he
  · simp only [Streams.push, List.mem_map, List.mem_reverse] at he
    obtain ⟨client, hclient, rfl⟩ := he
    refine ⟨thread, pkt, multicast, targets, heads, .silent, by simp, hclient,
      .copy (heads (s.clients client).scheduler) pkt, ?_, RtpBuffer.copyOf_copy _ _⟩
    have hmem : (s.clients client).scheduler ∈ s.schedulersOf targets := by
      unfold schedulersOf
      rw [List.mem_dedup]
      exact List.mem_map_of_mem hclient
    dsimp only [Streams.push]
    rw [List.getElem?_append_right (Nat.le_add_right _ _), Nat.add_sub_cancel_left, List.getElem?_map,
      List.getElem?_eq_getElem (List.idxOf_lt_length_of_mem hmem), List.getElem_idxOf, Option.map_some]
  · exact (h.posting thread' e he).mono hkeeps

/-- A call that the scheduler takes puts the packet of its copy behind those that wait. -/
theorem Sound.post {clients : ℕ → RtpConnection} {log : List (StreamStep × StreamEvent)} {s : Streams} (h : Sound clients log s)
    {i : StreamStep} {e : Post} {buf : RtpBuffer} (he : Pushed log s e) (hbuf : s.copies[e.copy]? = some buf) {thread : ℕ}
    {posting : Bool × List Post} (hposts : ∀ e' ∈ posting.2, e' ∈ (s.posting thread).2) :
    Sound clients (log ++ [(i, .posted e.client e.channel buf.packet)])
      { s with
        queue := Function.update s.queue (s.clients e.client).scheduler (s.queue (s.clients e.client).scheduler ++ [e])
        posting := Function.update s.posting thread posting } := by
  have hkeeps : KeepsCopies s
      { s with
        queue := Function.update s.queue (s.clients e.client).scheduler (s.queue (s.clients e.client).scheduler ++ [e])
        posting := Function.update s.posting thread posting } := keepsCopies_of_eq rfl
  have hpacket : s.packetAt e = some buf.packet := by rw [packetAt, hbuf, Option.map_some]
  refine ⟨h.scheduler, fun scheduler e' he' => ?_, fun thread' e' he' => ?_, fun client channel => ?_, fun client channel p hp => ?_⟩
  · dsimp only at he'
    rw [Function.update_apply] at he'
    split at he'
    · rename_i heq
      rcases List.mem_append.mp he' with hold | hnew
      · rw [heq]
        exact ⟨(h.queued _ e' hold).1.mono hkeeps, (h.queued _ e' hold).2⟩
      · rw [List.mem_singleton] at hnew
        subst hnew
        exact ⟨he.mono hkeeps, by rw [heq, h.scheduler]⟩
    · exact ⟨(h.queued _ e' he').1.mono hkeeps, (h.queued _ e' he').2⟩
  · dsimp only at he'
    rw [Function.update_apply] at he'
    split at he'
    · exact (h.posting thread e' (hposts e' he')).mono hkeeps
    · exact (h.posting thread' e' he').mono hkeeps
  · obtain ⟨taken, pkts, hposted, hsub, hsent, hnum⟩ := h.stream client channel
    refine ⟨taken, pkts, ?_, hsub, by simpa [handedTo] using hsent, hnum⟩
    have hsame : ∀ events, packetsFor
        { s with
          queue := Function.update s.queue (s.clients e.client).scheduler (s.queue (s.clients e.client).scheduler ++ [e])
          posting := Function.update s.posting thread posting } client channel events = s.packetsFor client channel events :=
      fun _ => rfl
    have hlog : postedTo client channel (log ++ [(i, .posted e.client e.channel buf.packet)]) =
        postedTo client channel log ++ if e.client = client ∧ e.channel = channel then [buf.packet] else [] := by
      unfold postedTo
      rw [List.filterMap_append]
      congr 1
      dsimp only [List.filterMap_cons, List.filterMap_nil]
      by_cases hto : e.client = client ∧ e.channel = channel <;> simp [hto]
    rw [hsame, hlog, hposted]
    dsimp only
    rw [Function.update_apply, List.append_assoc]
    congr 1
    by_cases hto : e.client = client ∧ e.channel = channel
    · rw [if_pos hto, ← hto.1, if_pos (h.scheduler e.client).symm, h.scheduler]
      unfold packetsFor
      rw [List.filterMap_append]
      congr 1
      rw [← hto.2]
      simp [hpacket]
    · rw [if_neg hto, List.append_nil]
      split
      · rename_i heq
        rw [heq]
        unfold packetsFor
        rw [List.filterMap_append]
        simp [hto]
      · rfl
  · have hcases : p ∈ postedTo client channel log ∨ ((e.client = client ∧ e.channel = channel) ∧ p = buf.packet) := by
      unfold postedTo at hp ⊢
      rw [List.filterMap_append, List.mem_append] at hp
      refine hp.imp id fun hlast => ?_
      by_cases hto : e.client = client ∧ e.channel = channel
      · simp [hto] at hlast
        exact ⟨hto, hlast⟩
      · simp [hto] at hlast
    rcases hcases with hold | ⟨⟨rfl, rfl⟩, rfl⟩
    · obtain ⟨thread', pkt, multicast, targets, heads, event, hmem, hrest⟩ := h.source client channel p hold
      exact ⟨thread', pkt, multicast, targets, heads, event, List.mem_append_left _ hmem, hrest⟩
    · obtain ⟨thread', pkt, multicast, targets, heads, event, hmem, htarget, buf', hbuf', hcopy⟩ := he
      rw [hbuf, Option.some.injEq] at hbuf'
      subst hbuf'
      exact ⟨thread', pkt, multicast, targets, heads, event, List.mem_append_left _ hmem, htarget, hcopy.packet⟩

/-- An event takes the packet of its copy, and sends it under the next number or not at all. -/
theorem Sound.deliver {clients : ℕ → RtpConnection} {log : List (StreamStep × StreamEvent)} {s s' : Streams}
    (h : Sound clients log s) {scheduler : ℕ} {e : Post} {events : List Post} (hqueue : s.queue scheduler = e :: events)
    {buf : RtpBuffer} (hbuf : s.copies[e.copy]? = some buf) {sent : Bool} {event : StreamEvent}
    (hdeliver : deliver sent e buf { s with queue := Function.update s.queue scheduler events } = (event, s')) (i : StreamStep) :
    Sound clients (log ++ [(i, event)]) s' := by
  obtain ⟨hpushed, hscheduler⟩ := h.queued scheduler e (by rw [hqueue]; exact List.mem_cons_self)
  obtain ⟨thread, pkt, multicast, targets, heads, event', hmem, htarget, buf', hbuf', hcopy⟩ := id hpushed
  rw [hbuf, Option.some.injEq] at hbuf'
  subst hbuf'
  obtain ⟨hq, hposting, ⟨buf', hcopy', hcopies⟩, hsched, hother, hown⟩ := deliver_spec hcopy hdeliver
  dsimp only at hq hposting hcopies hsched hother hown
  have hkeeps : KeepsCopies s s' := by
    intro j old pkt' hold hcopyOf
    rw [hcopies]
    by_cases hj : e.copy = j
    · subst hj
      obtain ⟨hlt, -⟩ := List.getElem?_eq_some_iff.mp hold
      rw [hbuf, Option.some.injEq] at hold
      subst hold
      have hlen := hcopyOf.length
      have hsame := hcopyOf.packet.symm.trans hcopy.packet
      simp only [RtpPacket.mk.injEq] at hsame
      refine ⟨buf', List.getElem?_set_self hlt, ?_, ?_⟩
      · rw [hcopy'.packet, ← hcopy.packet, hcopyOf.packet]
      · rw [hcopy'.length, hsame.1]
    · exact ⟨old, by rw [List.getElem?_set_ne hj]; exact hold, hcopyOf⟩
  have hsub : ∀ scheduler', ∀ e' ∈ s'.queue scheduler', e' ∈ s.queue scheduler' := by
    intro scheduler' e' he'
    rw [hq, Function.update_apply] at he'
    split at he'
    · rename_i heq
      rw [heq, hqueue]
      exact List.mem_cons_of_mem _ he'
    · exact he'
  have hsilent : ∀ client channel, postedTo client channel (log ++ [(i, event)]) = postedTo client channel log := by
    intro client channel
    unfold postedTo
    rw [List.filterMap_append]
    rcases hown with ⟨rfl, -⟩ | ⟨head, rtp, rfl, -⟩ <;> simp
  refine ⟨fun client => (hsched client).trans (h.scheduler client), fun scheduler' e' he' => ?_, fun thread' e' he' => ?_,
    fun client channel => ?_, fun client channel p hp => ?_⟩
  · obtain ⟨hp, hs⟩ := h.queued scheduler' e' (hsub scheduler' e' he')
    exact ⟨hp.mono hkeeps, hs⟩
  · rw [hposting] at he'
    exact (h.posting thread' e' he').mono hkeeps
  · obtain ⟨taken, pkts, hposted, hsublist, hsent, hnum⟩ := h.stream client channel
    have hwaits : s'.packetsFor client channel (s'.queue (clients client).scheduler) =
        s.packetsFor client channel (s'.queue (clients client).scheduler) :=
      packetsFor_of_keeps hkeeps (fun e' he' => (h.queued _ e' (hsub _ e' he')).1) client channel
    by_cases hto : e.client = client ∧ e.channel = channel
    · obtain ⟨rfl, rfl⟩ := hto
      have hfirst : s.packetsFor e.client e.channel (s.queue (clients e.client).scheduler) =
          ⟨pkt.payload, pkt.timestamp, pkt.last⟩ :: s.packetsFor e.client e.channel (s'.queue (clients e.client).scheduler) := by
        rw [hq, hscheduler, Function.update_self, hqueue]
        unfold packetsFor packetAt
        rw [List.filterMap_cons]
        simp [hbuf, hcopy.packet]
      have hall : postedTo e.client e.channel (log ++ [(i, event)]) =
          (taken ++ [⟨pkt.payload, pkt.timestamp, pkt.last⟩]) ++
            s'.packetsFor e.client e.channel (s'.queue (clients e.client).scheduler) := by
        rw [hsilent, hposted, hfirst, hwaits]
        simp
      rcases hown with ⟨rfl, hkept⟩ | ⟨head, rtp, rfl, hframes, hnext⟩
      · refine ⟨_, pkts, hall, hsublist.trans (List.sublist_append_left _ _), ?_, hkept.trans hnum⟩
        simpa [handedTo] using hsent
      · rw [hnum] at hframes hnext
        refine ⟨_, pkts ++ [⟨pkt.payload, pkt.timestamp, pkt.last⟩], hall, hsublist.append (List.Sublist.refl _), ?_, ?_⟩
        · have hone : handedTo e.client e.channel (log ++ [(i, .handed e.client e.channel head rtp)]) =
              handedTo e.client e.channel log ++ [(head, rtp)] := by
            unfold handedTo
            rw [List.filterMap_append]
            simp
          rw [hone, numbered_append_singleton]
          exact List.rel_append hsent (List.Forall₂.cons hframes List.Forall₂.nil)
        · rw [hnext, List.length_append, List.length_singleton, UInt16.ofNat_add, ← UInt16.add_assoc]
          rfl
    · refine ⟨taken, pkts, ?_, hsublist, ?_, ?_⟩
      · rw [hsilent, hposted, hwaits]
        congr 1
        rw [hq, Function.update_apply]
        split
        · rename_i heq
          rw [heq, hqueue]
          unfold packetsFor
          rw [List.filterMap_cons, if_neg hto]
        · rfl
      · have hnone : handedTo client channel (log ++ [(i, event)]) = handedTo client channel log := by
          unfold handedTo
          rw [List.filterMap_append]
          rcases hown with ⟨rfl, -⟩ | ⟨head, rtp, rfl, -⟩ <;> simp [hto]
        rw [hnone]
        exact hsent
      · rw [hother client channel fun heq => hto (by rw [Prod.mk.injEq] at heq; exact ⟨heq.1.symm, heq.2.symm⟩), hnum]
  · rw [hsilent] at hp
    obtain ⟨thread', pkt', multicast', targets', heads', event', hmem', hrest⟩ := h.source client channel p hp
    exact ⟨thread', pkt', multicast', targets', heads', event', List.mem_append_left _ hmem', hrest⟩

/-- A command on a connection, which keeps its scheduler and its numbers. -/
theorem Sound.command {clients : ℕ → RtpConnection} {log : List (StreamStep × StreamEvent)} {s : Streams} (h : Sound clients log s)
    (i : StreamStep) {client : ℕ} {c : RtpConnection} (hscheduler : c.scheduler = (s.clients client).scheduler)
    (hnumber : ∀ channel, c.number channel = (s.clients client).number channel) :
    Sound clients (log ++ [(i, .silent)]) (s.setClient client c) := by
  have hkeeps : KeepsCopies s (s.setClient client c) := keepsCopies_of_eq rfl
  refine h.silent rfl hkeeps (fun client' => ?_) (fun client' channel => ?_) fun thread e he => (h.posting thread e he).mono hkeeps
  · rw [clients_setClient]
    split
    · rename_i heq
      rw [hscheduler, heq]
    · rfl
  · rw [clients_setClient]
    split
    · rename_i heq
      rw [hnumber, heq]
    · rfl

/-- Every step keeps all of it. -/
theorem sound_step (clients : ℕ → RtpConnection) (log : List (StreamStep × StreamEvent)) (s : Streams) (i : StreamStep)
    (event : StreamEvent) (s' : Streams) (h : Sound clients log s) (hstep : step i s = .ok (event, s')) :
    Sound clients (log ++ [(i, event)]) s' := by
  cases i with
  | push thread channel pkt multicast targets heads =>
    simp only [step] at hstep
    split at hstep <;> cases hstep
    exact h.push thread channel pkt multicast targets heads
  | post thread taken =>
    simp only [step] at hstep
    split at hstep
    · cases hstep
    · rename_i multicast e posts hposting
      have he : Pushed log s e := h.posting thread e (by rw [hposting]; exact List.mem_cons_self)
      have hposts : ∀ e' ∈ posts, e' ∈ (s.posting thread).2 := fun e' he' => by
        rw [hposting]
        exact List.mem_cons_of_mem _ he'
      split at hstep
      · rename_i buf _ hbuf
        cases hstep
        refine h.post he hbuf fun e' he' => ?_
        dsimp only at he'
        split at he'
        · cases he'
        · exact hposts e' he'
      · cases hstep
        refine h.silent rfl (keepsCopies_of_eq rfl) (fun _ => rfl) (fun _ _ => rfl) fun thread' e' he' => ?_
        dsimp only at he'
        rw [Function.update_apply] at he'
        split at he'
        · exact (h.posting thread e' (hposts e' he')).mono (keepsCopies_of_eq rfl)
        · exact (h.posting thread' e' he').mono (keepsCopies_of_eq rfl)
  | run scheduler sent =>
    simp only [step] at hstep
    split at hstep
    · cases hstep
    · rename_i e events hqueue
      split at hstep
      · rename_i buf hbuf
        exact h.deliver hqueue hbuf (Except.ok.inj hstep) _
      · cases hstep
  | setPayloadType client channel payload =>
    cases hstep
    exact h.command _ rfl fun channel' => RtpConnection.number_setInfo channel' rfl
  | setup client channel overTcp rtpChannel =>
    cases hstep
    refine h.command _ rfl fun channel' => ?_
    exact RtpConnection.number_setInfo (c := s.clients client) channel' rfl
  | play client =>
    cases hstep
    exact h.command _ rfl fun channel => RtpConnection.number_play channel _
  | record client =>
    cases hstep
    exact h.command _ rfl fun channel => RtpConnection.number_record channel _
  | teardown client =>
    cases hstep
    exact h.command _ (RtpConnection.scheduler_teardown _) fun channel => RtpConnection.number_teardown channel _

/-- Nothing is posted to a client whose stream is closed. -/
theorem post_of_closed {s s' : Streams} {client thread : ℕ} {taken : Bool} {event : StreamEvent}
    (hclosed : (s.clients client).isClosed = true) (hstep : step (.post thread taken) s = .ok (event, s')) (channel : MediaChannelId)
    (pkt : RtpPacket) : event ≠ .posted client channel pkt := by
  rintro rfl
  simp only [step] at hstep
  split at hstep
  · cases hstep
  · split at hstep
    · rename_i hopen _
      cases hstep
      rw [hclosed] at hopen
      simp at hopen
    · cases hstep

end Streams

end AuthVideo.Xop
