import AuthVideo.Lib.Machine
import AuthVideo.Fu
import Mathlib.Data.Fin.Basic

/-!
# The packets of a session on their way to its clients

The callback of `MediaSession::AddSource` makes one copy of a packet for each scheduler among its clients and posts a trigger
event for every client. The events of one scheduler write their RTP headers into the same copy, one after the other, each before
it sends. Packets may be pushed from several threads, and the schedulers run beside each other.
-/

namespace AuthVideo.Xop

/-! ## Packets -/

/-- A packet that a source has filled, with the type of its frame. `data` has 1600 bytes, 16 of them before the payload. -/
structure SourcePacket where
  payload : Bytes
  timestamp : UInt32
  type : UInt8
  last : Bool
  fits : payload.length + 16 ≤ 1600
  deriving DecidableEq

/-- `RtpPacket`, a copy that the clients of one scheduler share. `size` is the length of the data. -/
structure RtpBuffer where
  data : Bytes
  timestamp : UInt32
  type : UInt8
  last : Bool
  deriving DecidableEq

/-- The copy. `head` is what the memory holds before the payload. -/
def RtpBuffer.copy (head : Vector UInt8 16) (pkt : SourcePacket) : RtpBuffer :=
  ⟨head.toList ++ pkt.payload, pkt.timestamp, pkt.type, pkt.last⟩

/-- What the copy is a copy of: the payload, behind the 16 bytes for the headers, with its timestamp and its mark. -/
def RtpBuffer.packet (buf : RtpBuffer) : RtpPacket := ⟨buf.data.drop 16, buf.timestamp, buf.last⟩

/-- `memcpy(data + pos, bytes, bytes.size())`. -/
def RtpBuffer.write (pos : ℕ) (bytes : Bytes) (buf : RtpBuffer) : RtpBuffer :=
  { buf with data := buf.data.take pos ++ bytes ++ buf.data.drop (pos + bytes.length) }

/-! ## Connections -/

/-- `MediaChannelInfo`. -/
structure MediaChannelInfo where
  payload : UInt8
  ssrc : UInt32
  packetSeq : UInt16
  rtpChannel : UInt8
  isSetup : Bool
  isPlay : Bool
  isRecord : Bool
  deriving DecidableEq

/-- `MAX_MEDIA_CHANNEL`. -/
abbrev MediaChannelId := Fin 2

/-- `channel_0`. -/
abbrev channel0 : MediaChannelId := ⟨0, Nat.zero_lt_two⟩

/-- `channel_1`. -/
abbrev channel1 : MediaChannelId := ⟨1, Nat.one_lt_two⟩

/-- `RtpConnection`, with the scheduler of its RTSP connection. -/
structure RtpConnection where
  scheduler : ℕ
  info : MediaChannelId → MediaChannelInfo
  overTcp : Bool
  hasKeyFrame : Bool
  isClosed : Bool

/-- `rtp_header` in memory. -/
def rtpHeaderBytes (payload : UInt8) (ssrc : UInt32) (seq : UInt16) (timestamp : UInt32) (marker : Bool) : Bytes :=
  [0x80, (if marker then 0x80 else 0) ||| (payload &&& 0x7F), (seq >>> 8).toUInt8, seq.toUInt8,
    (timestamp >>> 24).toUInt8, (timestamp >>> 16).toUInt8, (timestamp >>> 8).toUInt8, timestamp.toUInt8,
    (ssrc >>> 24).toUInt8, (ssrc >>> 16).toUInt8, (ssrc >>> 8).toUInt8, ssrc.toUInt8]

namespace RtpConnection

/-- A change of one channel. -/
def setInfo (channel : MediaChannelId) (info : MediaChannelInfo) (c : RtpConnection) : RtpConnection :=
  { c with info := Function.update c.info channel info }

/-- `SetPayloadType`. -/
def setPayloadType (channel : MediaChannelId) (payload : UInt8) (c : RtpConnection) : RtpConnection :=
  c.setInfo channel { c.info channel with payload }

/-- `SetupRtpOverTcp`, or one of the other two where it succeeds. -/
def setup (channel : MediaChannelId) (overTcp : Bool) (rtpChannel : UInt8) (c : RtpConnection) : RtpConnection :=
  { c.setInfo channel { c.info channel with rtpChannel := if overTcp then rtpChannel else (c.info channel).rtpChannel, isSetup := true }
    with overTcp }

/-- `Play`. -/
def play (c : RtpConnection) : RtpConnection :=
  { c with info := fun channel => if (c.info channel).isSetup then { c.info channel with isPlay := true } else c.info channel }

/-- `Record`. -/
def record (c : RtpConnection) : RtpConnection :=
  { c with info := fun channel =>
      if (c.info channel).isSetup then { c.info channel with isRecord := true, isPlay := true } else c.info channel }

/-- `Teardown`. -/
def teardown (c : RtpConnection) : RtpConnection :=
  if c.isClosed then c
  else { c with isClosed := true, info := fun channel => { c.info channel with isPlay := false, isRecord := false } }

/-- `SetFrameType`. -/
def setFrameType (frameType : UInt8) (c : RtpConnection) : RtpConnection :=
  if !c.hasKeyFrame && (frameType = 0 || frameType = 1) then { c with hasKeyFrame := true } else c

/-- The test of `SetRtpHeader`, and of the event. -/
def sends (channel : MediaChannelId) (c : RtpConnection) : Bool :=
  ((c.info channel).isPlay || (c.info channel).isRecord) && c.hasKeyFrame

/-- `SetRtpHeader`: the connection and the copy after the call. -/
def setRtpHeader (channel : MediaChannelId) (buf : RtpBuffer) (c : RtpConnection) : RtpConnection × RtpBuffer :=
  if c.sends channel then
    let info := c.info channel
    (c.setInfo channel { info with packetSeq := info.packetSeq + 1 },
      buf.write 4 (rtpHeaderBytes info.payload info.ssrc info.packetSeq buf.timestamp buf.last))
  else (c, buf)

/-- The four bytes of `SendRtpOverTcp`. -/
def tcpHead (channel : MediaChannelId) (buf : RtpBuffer) (c : RtpConnection) : Bytes :=
  [36, (c.info channel).rtpChannel, .ofNat ((buf.data.length - 4) / 256), .ofNat (buf.data.length - 4)]

end RtpConnection

/-! ## The system -/

/-- A trigger event, and a call of `SendRtpPacket` that is still to come: for whom, and which copy. -/
structure Post where
  client : ℕ
  channel : MediaChannelId
  copy : ℕ
  deriving DecidableEq

/-- The connections, the copies, the queues of the schedulers, and the threads that are going through their clients. -/
structure Streams where
  clients : ℕ → RtpConnection
  copies : List RtpBuffer
  queue : ℕ → List Post
  posting : ℕ → Bool × List Post

/-- What a step can be. -/
inductive StreamStep where
  /-- A thread pushes a packet to some clients of its session. The copies come in the order of the schedulers in `schedulers`. -/
  | push (thread : ℕ) (channel : MediaChannelId) (pkt : SourcePacket) (multicast : Bool) (targets : List ℕ)
      (heads : ℕ → Vector UInt8 16)
  /-- The next `SendRtpPacket` of a thread. `taken` says whether the connection is still there and its scheduler has room. -/
  | post (thread : ℕ) (taken : Bool)
  /-- A scheduler runs its next event. `sent` is what becomes of `sendto`. -/
  | run (scheduler : ℕ) (sent : Bool)
  | setPayloadType (client : ℕ) (channel : MediaChannelId) (payload : UInt8)
  | setup (client : ℕ) (channel : MediaChannelId) (overTcp : Bool) (rtpChannel : UInt8)
  | play (client : ℕ)
  | record (client : ℕ)
  | teardown (client : ℕ)

/-- What there is to see of a step. -/
inductive StreamEvent where
  | silent
  /-- An event is in the queue of the client's scheduler, with a copy of this packet. -/
  | posted (client : ℕ) (channel : MediaChannelId) (pkt : RtpPacket)
  /-- A client's event gives a packet to `sendto`, which may fail, or, with the four bytes of the interleaved mode, to
  `TcpConnection::Send`, which drops it where the queue of the connection is full. -/
  | handed (client : ℕ) (channel : MediaChannelId) (head rtp : Bytes)
  deriving DecidableEq

namespace Streams

/-- At the start nothing is under way. -/
def start (clients : ℕ → RtpConnection) : Streams := ⟨clients, [], fun _ => [], fun _ => (false, [])⟩

/-- A change of one client. -/
def setClient (client : ℕ) (c : RtpConnection) (s : Streams) : Streams := { s with clients := Function.update s.clients client c }

/-- The schedulers of some clients, each once. -/
def schedulersOf (s : Streams) (targets : List ℕ) : List ℕ := (targets.map fun client => (s.clients client).scheduler).dedup

/-- The two loops of the callback up to the calls: a copy for each scheduler, and the clients from the last one on. -/
def push (channel : MediaChannelId) (pkt : SourcePacket) (targets : List ℕ) (heads : ℕ → Vector UInt8 16) (s : Streams) :
    List RtpBuffer × List Post :=
  let schedulers := s.schedulersOf targets
  (schedulers.map fun scheduler => .copy (heads scheduler) pkt,
    targets.reverse.map fun client => ⟨client, channel, s.copies.length + schedulers.idxOf (s.clients client).scheduler⟩)

/-- The event of `SendRtpPacket`. It does not look at what `TcpConnection::Send` does with the packet. -/
def deliver (sent : Bool) (e : Post) (buf : RtpBuffer) (s : Streams) : StreamEvent × Streams :=
  let c := (s.clients e.client).setFrameType buf.type
  let (c, buf) := c.setRtpHeader e.channel buf
  if c.sends e.channel then
    if c.overTcp then
      let buf := buf.write 0 (c.tcpHead e.channel buf)
      (.handed e.client e.channel (buf.data.take 4) (buf.data.drop 4),
        { s.setClient e.client c with copies := s.copies.set e.copy buf })
    else
      (.handed e.client e.channel [] (buf.data.drop 4),
        { s.setClient e.client (if sent then c else c.teardown) with copies := s.copies.set e.copy buf })
  else (.silent, { s.setClient e.client c with copies := s.copies.set e.copy buf })

/-- One step. -/
def step : StreamStep → Streams → Except Unit (StreamEvent × Streams)
  | .push thread channel pkt multicast targets heads, s =>
    if (s.posting thread).2 = [] then
      let (copies, posts) := s.push channel pkt targets heads
      .ok (.silent, { s with copies := s.copies ++ copies, posting := Function.update s.posting thread (multicast, posts) })
    else .error ()
  | .post thread taken, s =>
    match s.posting thread with
    | (_, []) => .error ()
    | (multicast, e :: posts) =>
      let c := s.clients e.client
      match taken && !c.isClosed, s.copies[e.copy]? with
      | true, some buf =>
        -- One event is enough where the packets go to a group.
        .ok (.posted e.client e.channel buf.packet,
          { s with
            queue := Function.update s.queue c.scheduler (s.queue c.scheduler ++ [e])
            posting := Function.update s.posting thread (multicast, if multicast then [] else posts) })
      | _, _ => .ok (.silent, { s with posting := Function.update s.posting thread (multicast, posts) })
  | .run scheduler sent, s =>
    match s.queue scheduler with
    | [] => .error ()
    | e :: events =>
      let s := { s with queue := Function.update s.queue scheduler events }
      match s.copies[e.copy]? with
      | some buf => .ok (s.deliver sent e buf)
      | none => .error ()
  | .setPayloadType client channel payload, s => .ok (.silent, s.setClient client ((s.clients client).setPayloadType channel payload))
  | .setup client channel overTcp rtpChannel, s => .ok (.silent, s.setClient client ((s.clients client).setup channel overTcp rtpChannel))
  | .play client, s => .ok (.silent, s.setClient client (s.clients client).play)
  | .record client, s => .ok (.silent, s.setClient client (s.clients client).record)
  | .teardown client, s => .ok (.silent, s.setClient client (s.clients client).teardown)

/-- The log of a run, and where it ends. -/
def run (clients : ℕ → RtpConnection) (steps : List StreamStep) : List (StreamStep × StreamEvent) × Except Unit Streams :=
  Machine.run step steps (start clients)

end Streams

/-! ## Logs -/

/-- The packets that were posted to a channel of a client, in this order. -/
def postedTo (client : ℕ) (channel : MediaChannelId) (log : List (StreamStep × StreamEvent)) : List RtpPacket :=
  log.filterMap fun entry => match entry.2 with
    | .posted client' channel' pkt => if client' = client ∧ channel' = channel then some pkt else none
    | _ => none

/-- What was given to `TcpConnection::Send` or to `sendto` on a channel of a client, in this order. -/
def handedTo (client : ℕ) (channel : MediaChannelId) (log : List (StreamStep × StreamEvent)) : List (Bytes × Bytes) :=
  log.filterMap fun entry => match entry.2 with
    | .handed client' channel' head rtp => if client' = client ∧ channel' = channel then some (head, rtp) else none
    | _ => none

end AuthVideo.Xop
