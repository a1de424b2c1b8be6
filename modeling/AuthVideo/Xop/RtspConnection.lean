import AuthVideo.Xop.RtspServer

/-!
# A connection of the RTSP server

`HandleRead` gives what has come to the parser and answers at most one request. What lies outside of the program comes with the
arrival: the bytes, the numbers that are drawn, the ports that can be bound and the sessions that the server has at that time.
-/

namespace AuthVideo.Xop

/-! ## Streams -/

/-- `RtpConnection` with the ports of its channels. `address` is as much of its address as an answer shows. -/
structure RtpEndpoint extends RtpConnection where
  address : UInt16
  rtpPort : MediaChannelId → UInt16
  rtcpPort : MediaChannelId → UInt16
  localRtpPort : MediaChannelId → UInt16
  localRtcpPort : MediaChannelId → UInt16
  isMulticast : Bool

namespace RtpEndpoint

/-- The constructor, with what it draws. -/
def new (scheduler : ℕ) (address : UInt16) (draws : MediaChannelId → UInt32 × UInt16) : RtpEndpoint where
  scheduler := scheduler
  info channel := ⟨0, (draws channel).1, (draws channel).2, 0, false, false, false⟩
  overTcp := false
  hasKeyFrame := false
  isClosed := false
  address := address
  rtpPort _ := 0
  rtcpPort _ := 0
  localRtpPort _ := 0
  localRtcpPort _ := 0
  isMulticast := false

/-- `SetPayloadType` on a field of seven bits. -/
def setPayloadType (channel : MediaChannelId) (payload : UInt32) (e : RtpEndpoint) : RtpEndpoint :=
  { e with toRtpConnection := e.toRtpConnection.setPayloadType channel (payload.toUInt8 &&& 0x7F) }

/-- The turn of `HandleCmdDescribe` for a channel. -/
def setSource (session : MediaSession) (channel : MediaChannelId) (e : RtpEndpoint) : RtpEndpoint :=
  match session.sources channel with
  | some source => e.setPayloadType channel source.payloadType
  | none => e

/-- `SetupRtpOverTcp`. -/
def setupRtpOverTcp (channel : MediaChannelId) (rtpChannel : UInt8) (e : RtpEndpoint) : RtpEndpoint :=
  { e with toRtpConnection := e.toRtpConnection.setup channel true rtpChannel }

/-- `SetupRtpOverUdp`, with the pair of ports that can be bound, if one of ten can. -/
def setupRtpOverUdp (channel : MediaChannelId) (rtpPort rtcpPort : UInt16) (bound : Option (UInt16 × UInt16)) (e : RtpEndpoint) :
    Bool × RtpEndpoint :=
  let e := { e with rtpPort := Function.update e.rtpPort channel rtpPort, rtcpPort := Function.update e.rtcpPort channel rtcpPort }
  match bound with
  | none => (false, e)
  | some (localRtpPort, localRtcpPort) => (true, { e with
      localRtpPort := Function.update e.localRtpPort channel localRtpPort
      localRtcpPort := Function.update e.localRtcpPort channel localRtcpPort
      toRtpConnection := e.toRtpConnection.setup channel false 0 })

/-- `SetupRtpOverMulticast`. -/
def setupRtpOverMulticast (channel : MediaChannelId) (port : UInt16) (bound : Bool) (e : RtpEndpoint) : Bool × RtpEndpoint :=
  if bound then
    (true, { e with
      rtpPort := Function.update e.rtpPort channel port
      isMulticast := true
      toRtpConnection := e.toRtpConnection.setup channel false 0 })
  else (false, e)

/-- `Play`. -/
def play (e : RtpEndpoint) : RtpEndpoint := { e with toRtpConnection := e.toRtpConnection.play }

/-- `Teardown`. -/
def teardown (e : RtpEndpoint) : RtpEndpoint := { e with toRtpConnection := e.toRtpConnection.teardown }

end RtpEndpoint

/-! ## The connection -/

/-- `RtspConnection` with its reader. `isPlay` says that `conn_state_` is `START_PLAY`. -/
structure RtspConnection where
  socket : ℕ
  scheduler : ℕ
  readBuffer : BufferReader
  request : RtspRequest
  authInfo : Option Credentials
  hasAuth : Bool
  nonce : Bytes
  sessionId : ℕ
  rtpConn : Option RtpEndpoint
  isPlay : Bool
  isClosed : Bool

/-- What a call of `HandleRead` meets. -/
structure RtspArrival where
  bytes : Bytes
  server : RtspServer
  nonce : Bytes
  address : UInt16
  draws : MediaChannelId → UInt32 × UInt16
  boundPorts : Option (UInt16 × UInt16)
  bound : Bool
  time : UInt64
  ip : Bytes

/-- What a connection does that others see. -/
inductive RtspEvent where
  /-- `SendRtspMessage`. -/
  | sent (text : Bytes)
  /-- An answer 401 goes out with a new nonce. -/
  | challenged (nonce : Bytes)
  /-- A request is found to have the digest of the nonce. -/
  | authenticated (nonce cmd url response : Bytes)
  /-- The connection becomes a client of a session. -/
  | joined (session : ℕ)
  deriving DecidableEq

/-- What a handler leaves. -/
abbrev Handled := Except Fault (List RtspEvent × RtspServer × RtspConnection)

section Handlers

variable (md5HashHex : Bytes → Bytes)

/-- `DigestAuthentication::GetResponse`. -/
def Credentials.getResponse (nonce cmd url : Bytes) (credentials : Credentials) : Bytes :=
  let hex1 := md5HashHex (credentials.username ++ cstr ":" ++ credentials.realm ++ cstr ":" ++ credentials.password)
  let hex2 := md5HashHex (cmd ++ cstr ":" ++ url)
  md5HashHex (hex1 ++ cstr ":" ++ nonce ++ cstr ":" ++ hex2)

namespace RtspConnection

/-- The constructor, for a connection that a server accepts. -/
def new (server : RtspServer) (socket scheduler : ℕ) (request : RtspRequest) : RtspConnection :=
  ⟨socket, scheduler, .new, request, server.auth, server.auth.isNone, [], 0, none, false, false⟩

/-- `HandleAuthentication`. -/
def handleAuthentication (nonce : Bytes) (c : RtspConnection) : Bool × List RtspEvent × RtspConnection :=
  match c.authInfo, c.hasAuth with
  | some credentials, false =>
    let cmd := c.request.method.toText
    let url := c.request.getRtspUrl
    if 0 < c.nonce.length ∧ credentials.getResponse md5HashHex c.nonce cmd url = c.request.authResponse then
      (true, [.authenticated c.nonce cmd url c.request.authResponse], { c with nonce := [], hasAuth := true })
    else
      (false, [.challenged nonce, .sent (c.request.buildUnauthorizedRes 4096 credentials.realm nonce)], { c with nonce })
  | _, _ => (true, [], c)

/-- `HandleCmdOption`. -/
def handleCmdOption (a : RtspArrival) (c : RtspConnection) : Handled := .ok ([.sent (c.request.buildOptionRes 2048)], a.server, c)

/-- The stream of the connection, which `HandleCmdDescribe` makes where there is none. -/
def endpoint (a : RtspArrival) (c : RtspConnection) : RtpEndpoint := c.rtpConn.getD (.new c.scheduler a.address a.draws)

/-- `HandleCmdDescribe` behind the authentication. -/
def describe (a : RtspArrival) (c : RtspConnection) : Handled :=
  let e := c.endpoint a
  match a.server.lookSuffix c.request.getRtspUrlSuffix with
  | none => .ok ([.sent (c.request.buildNotFoundRes 4096)], a.server, { c with rtpConn := some e })
  | some session =>
    let session := (session.addClient c.socket).getSdpMessage a.time a.ip a.server.version
    let server := a.server.modify session.sessionId
      (fun session => (session.addClient c.socket).getSdpMessage a.time a.ip a.server.version) fun session => by
        unfold MediaSession.getSdpMessage MediaSession.addClient
        split <;> split <;> exact ⟨rfl, rfl⟩
    let e := (e.setSource session channel0).setSource session channel1
    let text := if session.sdp = [] then c.request.buildServerErrorRes 4096 else c.request.buildDescribeRes 4096 session.sdp
    .ok ([.joined session.sessionId, .sent text], server, { c with sessionId := session.sessionId, rtpConn := some e })

/-- `HandleCmdSetup` behind the authentication. -/
def setup (a : RtspArrival) (c : RtspConnection) : Handled :=
  let serverError := .ok ([.sent (c.request.buildServerErrorRes 4096)], a.server, c)
  let transportUnsupport := .ok ([.sent (c.request.buildUnsupportedRes 4096)], a.server, c)
  match a.server.lookId c.sessionId with
  | none => serverError
  | some session =>
    match session.multicast, c.request.transport, c.rtpConn with
    | some group, .rtpOverMulticast, some e =>
      let port := group.port c.request.channelId
      match e.setupRtpOverMulticast c.request.channelId port a.bound with
      | (true, e) => .ok ([.sent (c.request.buildSetupMulticastRes 4096 group.ip port e.address.toUInt32)], a.server,
          { c with rtpConn := some e })
      | (false, e) => .ok ([.sent (c.request.buildServerErrorRes 4096)], a.server, { c with rtpConn := some e })
    | none, .rtpOverTcp, some e =>
      let e := e.setupRtpOverTcp c.request.channelId c.request.getRtpChannel
      .ok ([.sent (c.request.buildSetupTcpRes 4096 c.request.getRtpChannel.toUInt16 c.request.getRtcpChannel.toUInt16
        e.address.toUInt32)], a.server, { c with rtpConn := some e })
    | none, .rtpOverUdp, some e =>
      match e.setupRtpOverUdp c.request.channelId c.request.getRtpPort c.request.getRtcpPort a.boundPorts with
      | (true, e) => .ok ([.sent (c.request.buildSetupUdpRes 4096 (e.localRtpPort c.request.channelId)
          (e.localRtcpPort c.request.channelId) e.address.toUInt32)], a.server, { c with rtpConn := some e })
      | (false, e) => .ok ([.sent (c.request.buildServerErrorRes 4096)], a.server, { c with rtpConn := some e })
    -- `rtp_conn_` is used without a test.
    | some _, .rtpOverMulticast, none | none, .rtpOverTcp, none | none, .rtpOverUdp, none => .error .nullPointer
    | _, _, _ => transportUnsupport

/-- `HandleCmdPlay` behind the authentication. -/
def play (a : RtspArrival) (c : RtspConnection) : Handled :=
  match c.rtpConn with
  | none => .ok ([], a.server, c)
  | some e => .ok ([.sent (c.request.buildPlayRes 2048 e.address.toUInt32)], a.server,
      { c with rtpConn := some e.play, isPlay := true })

/-- A handler that begins with the authentication. -/
def authenticated (handler : RtspArrival → RtspConnection → Handled) (a : RtspArrival) (c : RtspConnection) : Handled :=
  match c.handleAuthentication md5HashHex a.nonce with
  | (false, events, c) => .ok (events, a.server, c)
  | (true, events, c) => do
    let (more, server, c) ← handler a c
    return (events ++ more, server, c)

/-- `HandleCmdDescribe`. -/
def handleCmdDescribe : RtspArrival → RtspConnection → Handled := authenticated md5HashHex describe

/-- `HandleCmdSetup`. -/
def handleCmdSetup : RtspArrival → RtspConnection → Handled := authenticated md5HashHex setup

/-- `HandleCmdPlay`. -/
def handleCmdPlay : RtspArrival → RtspConnection → Handled := authenticated md5HashHex play

/-- `HandleCmdTeardown`. -/
def handleCmdTeardown (a : RtspArrival) (c : RtspConnection) : Handled :=
  match c.rtpConn with
  | none => .ok ([], a.server, c)
  | some e => .ok ([.sent (c.request.buildTeardownRes 2048 e.address.toUInt32)], a.server, { c with rtpConn := some e.teardown })

/-- `HandleCmdGetParamter`. -/
def handleCmdGetParamter (a : RtspArrival) (c : RtspConnection) : Handled :=
  match c.rtpConn with
  | none => .ok ([], a.server, c)
  | some e => .ok ([.sent (c.request.buildTeardownRes 2048 e.address.toUInt32)], a.server, c)

/-- `HandleRtcp`. -/
def handleRtcp (b : BufferReader) : BufferReader :=
  match b.readable with
  | 36 :: _ :: high :: low :: rest =>
    let pktSize := high.toNat * 256 + low.toNat
    if 0 < rest.length ∧ b.readableBytes ≤ pktSize + 4 then b.retrieve (pktSize + 4) else b
  | _ => b

/-- The `switch` of `HandleRtspRequest`. -/
def handleMethod (a : RtspArrival) (c : RtspConnection) : Handled :=
  match c.request.method with
  | .options => c.handleCmdOption a
  | .describe => c.handleCmdDescribe md5HashHex a
  | .setup => c.handleCmdSetup md5HashHex a
  | .play => c.handleCmdPlay md5HashHex a
  | .teardown => c.handleCmdTeardown a
  | .getParameter => c.handleCmdGetParamter a
  | .rtcp | .none => .ok ([], a.server, c)

/-- `HandleRtspRequest`, with what it returns. -/
def handleRtspRequest (a : RtspArrival) (c : RtspConnection) : Except Fault (Bool × List RtspEvent × RtspServer × RtspConnection) := do
  let (ret, request, readBuffer) ← c.request.parseRequest c.readBuffer
  let c := { c with request, readBuffer }
  if !ret then return (false, [], a.server, c)
  else if request.method = .rtcp then return (true, [], a.server, { c with readBuffer := handleRtcp readBuffer })
  else if !request.gotAll then return (true, [], a.server, c)
  else
    let (events, server, c) ← c.handleMethod md5HashHex a
    return (true, events, server, { c with request := c.request.reset })

/-- `MAX_RTSP_MESSAGE_SIZE`. -/
def maxRtspMessageSize : ℕ := 2048

/-- `OnRead`. -/
def onRead (a : RtspArrival) (c : RtspConnection) : Except Fault (Bool × List RtspEvent × RtspServer × RtspConnection) := do
  if c.readBuffer.readableBytes = 0 then return (false, [], a.server, c)
  let (ret, events, server, c) ← c.handleRtspRequest md5HashHex a
  if !ret then return (false, events, server, c)
  return (true, events, server,
    if maxRtspMessageSize < c.readBuffer.readableBytes then { c with readBuffer := c.readBuffer.retrieveAll } else c)

/-- `Close`, which leaves the session. -/
def close (server : RtspServer) (c : RtspConnection) : RtspServer × RtspConnection :=
  (if c.sessionId = 0 then server else server.modify c.sessionId (·.removeClient c.socket) fun _ => ⟨rfl, rfl⟩,
    { c with isClosed := true })

/-- `HandleRead`. -/
def handleRead (a : RtspArrival) (c : RtspConnection) : Handled := do
  if c.isClosed then return ([], a.server, c)
  match c.readBuffer.read a.bytes with
  | none => return ([], c.close a.server)
  | some readBuffer =>
    let (ret, events, server, c) ← { c with readBuffer }.onRead md5HashHex a
    return (events, if ret then (server, c) else c.close server)

/-- A step of a connection. What it leaves of the sessions is in the next arrival, with what others have done to them. -/
def step (a : RtspArrival) (c : RtspConnection) : Except Fault (List RtspEvent × RtspConnection) := do
  let (events, _, c) ← c.handleRead md5HashHex a
  return (events, c)

/-- The log of a run of a new connection, and where it ends. -/
def run (server : RtspServer) (socket scheduler : ℕ) (request : RtspRequest) (arrivals : List RtspArrival) :
    List (RtspArrival × List RtspEvent) × Except Fault RtspConnection :=
  Machine.run (step md5HashHex) arrivals (new server socket scheduler request)

end RtspConnection

end Handlers

end AuthVideo.Xop
