import AuthVideo.Board.RtspClient
import AuthVideo.Xop.RtspConnection

/-!
# The handshake of a board with the server

The forwarding board and the program of `rtsp_h265_file.cpp`, with the bytes that are on their way between them. TCP keeps their order
and nothing else: a `recv` of either side may give any part of what has been sent.
-/

namespace AuthVideo

open Xop

/-- The server of `rtsp_h265_file.cpp`: one session, with H.265 on its first channel. -/
def liveServer : RtspServer :=
  ((RtspServer.new [] none).addSession (cstr "live") (fun channel => if channel = channel0 then some h265Source else none) none (by decide)).2

/-- The board, its connection at the server, the sessions, and what is on its way. -/
structure Handshake where
  client : RtspClient
  server : RtspConnection
  sessions : RtspServer
  toServer : Bytes
  toClient : Bytes

/-- A step of either side. -/
inductive HandshakeStep where
  /-- The board sends its next request. -/
  | send
  /-- The server reads `count + 1` bytes, or as many as there are. -/
  | read (count : ℕ) (a : RtspArrival)
  /-- `recv` of the board gives all bytes that have come, less `missing`. -/
  | receive (missing : ℕ)

/-- `recv` of the board gives all that has come. The server finds two ports, and its own address is one of IPv4. -/
def HandshakeStep.Whole : HandshakeStep → Prop
  | .send => True
  | .read _ a => a.boundPorts.isSome = true ∧ a.ip.length ≤ 15
  | .receive missing => missing = 0

/-- What there is to see of a step. -/
inductive HandshakeEvent where
  | sent (text : Bytes)
  | read (bytes : Bytes) (events : List RtspEvent)
  | received (bytes : Bytes)

/-- Why a step is not made. -/
inductive NoStep where
  | blocked
  | fault (f : Fault)
  deriving DecidableEq

namespace Handshake

/-- The connection is made. -/
def start (buf : Bytes) (socket scheduler : ℕ) (request : RtspRequest) : Handshake :=
  ⟨.new buf, .new liveServer socket scheduler request, liveServer, [], []⟩

/-- The texts among the events. -/
def textsOf (events : List RtspEvent) : Bytes :=
  (events.map fun event => match event with
    | .sent text => text
    | _ => []).flatten

section Step

variable (md5HashHex : Bytes → Bytes)

/-- One step. -/
def step : HandshakeStep → Handshake → Except NoStep (HandshakeEvent × Handshake)
  | .send, s =>
    match s.client.send with
    | some (text, client) => .ok (.sent text, { s with client, toServer := s.toServer ++ text })
    | none => .error .blocked
  | .read count a, s =>
    let bytes := s.toServer.take (min (count + 1) maxBytesPerRead)
    if bytes = [] || s.server.isClosed then .error .blocked
    else
      match s.server.handleRead md5HashHex { a with bytes, server := s.sessions } with
      | .ok (events, sessions, server) => .ok (.read bytes events,
          { s with server, sessions, toServer := s.toServer.drop bytes.length, toClient := s.toClient ++ textsOf events })
      | .error f => .error (.fault f)
  | .receive missing, s =>
    let bytes := s.toClient.take (min (s.toClient.length - missing) 1023)
    -- `recv` waits for a byte, or for the end of the connection.
    if bytes = [] && !(s.server.isClosed && s.toClient.isEmpty) then .error .blocked
    else
      match s.client.receive bytes with
      | some (.ok client) => .ok (.received bytes, { s with client, toClient := s.toClient.drop bytes.length })
      | some (.error f) => .error (.fault f)
      | none => .error .blocked

/-- The log of a run, and where it ends. -/
def run (buf : Bytes) (socket scheduler : ℕ) (request : RtspRequest) (steps : List HandshakeStep) :
    List (HandshakeStep × HandshakeEvent) × Except NoStep Handshake :=
  Machine.run (step md5HashHex) steps (start buf socket scheduler request)

/-- No step can be made. -/
def Stuck (s : Handshake) : Prop := ∀ i, step md5HashHex i s = .error .blocked

end Step

/-- The last request. -/
def lastSent (log : List (HandshakeStep × HandshakeEvent)) : Option Bytes :=
  (log.filterMap fun entry => match entry.2 with
    | .sent text => some text
    | _ => none).getLast?

/-- The last step is a read of the whole last request, with bytes in front of it. -/
def ReadTogether (log : List (HandshakeStep × HandshakeEvent)) : Prop :=
  ∃ i bytes events text, log.getLast? = some (i, .read bytes events) ∧ lastSent log = some text ∧ text <:+ bytes ∧ bytes ≠ text

/-- The stream goes to the ports of the board. -/
def Streaming (s : Handshake) : Prop :=
  ∃ e, s.server.rtpConn = some e ∧ (e.info channel0).isPlay = true ∧ e.overTcp = false ∧ e.isClosed = false ∧ e.rtpPort channel0 = 5008 ∧
    e.rtcpPort channel0 = 5009 ∧ s.client.sessionId = percentU e.address.toUInt32

end Handshake

end AuthVideo
