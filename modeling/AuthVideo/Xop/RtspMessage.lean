import AuthVideo.Board.Text
import AuthVideo.Lib.Scanf
import AuthVideo.Net.BufferReader
import AuthVideo.Xop.RtpConnection

/-!
# The requests of RTSP

`RtspRequest` parses a request as it arrives. A call of `ParseRequest` looks at one request line, and where the line is accepted at
the header lines behind it that have come so far. The texts of its `sscanf` calls go into arrays without a limit.
-/

namespace AuthVideo.Xop

/-- What ends the program, or may do anything: a text too long for its array, `substr` behind the end of a string, a null pointer. -/
inductive Fault where
  | overflow
  | outOfRange
  | nullPointer
  deriving DecidableEq, Repr

/-- What `sscanf` of the server goes by. -/
def locale : Scanf.Locale UInt8 := ⟨isspace, fun c => if isdigit c then some (c.toNat - 48) else none, 43, 45, 64⟩

/-- `c_str`. -/
def cString (s : Bytes) : Bytes := s.takeWhile (· ≠ 0)

/-- `std::string::find`. -/
def find (pat : String) (s : Bytes) : Option ℕ := Search.first (cstr pat) s

/-- `find` from a place on. -/
def findFrom (pat : String) (pos : ℕ) (s : Bytes) : Option ℕ := (find pat (s.drop pos)).map (pos + ·)

/-- `std::string::rfind`. -/
def rfind (pat : String) (s : Bytes) : Option ℕ := Search.last (cstr pat) s

/-- `std::string::substr`, which throws where it is to begin behind the end. -/
def substr (pos len : ℕ) (s : Bytes) : Except Fault Bytes :=
  if s.length < pos then .error .outOfRange else .ok ((s.drop pos).take len)

/-! ## Requests -/

/-- `RtspRequest::Method`. -/
inductive Method where
  | options
  | describe
  | setup
  | play
  | teardown
  | getParameter
  | rtcp
  | none
  deriving DecidableEq, Repr

/-- `MethodToString`. -/
def Method.toText : Method → Bytes
  | .options => cstr "OPTIONS"
  | .describe => cstr "DESCRIBE"
  | .setup => cstr "SETUP"
  | .play => cstr "PLAY"
  | .teardown => cstr "TEARDOWN"
  | .getParameter => cstr "GET_PARAMETER"
  | .rtcp => cstr "RTCP"
  | .none => cstr "NONE"

/-- The comparisons of `ParseRequestLine`. -/
def Method.ofText (text : Bytes) : Option Method :=
  [Method.options, .describe, .setup, .play, .teardown, .getParameter].find? fun method => method.toText = text

/-- `TransportMode`. -/
inductive TransportMode where
  | rtpOverTcp
  | rtpOverUdp
  | rtpOverMulticast
  deriving DecidableEq, Repr

/-- `RtspRequestParseState`. -/
inductive RequestState where
  | parseRequestLine
  | parseHeadersLine
  | gotAll
  deriving DecidableEq, Repr

/-- The entries of `request_line_param_`, which come all together. -/
structure RequestLineParam where
  url : Bytes
  urlIp : Bytes
  urlPort : UInt16
  urlSuffix : Bytes
  version : Bytes
  method : Bytes
  deriving DecidableEq, Repr

/-- The entries of `header_line_param_`. -/
structure HeaderLineParam where
  cseq : Option UInt32
  rtpChannel : Option UInt16
  rtcpChannel : Option UInt16
  rtpPort : Option UInt16
  rtcpPort : Option UInt16
  deriving DecidableEq, Repr

/-- `RtspRequest`. -/
structure RtspRequest where
  method : Method
  channelId : MediaChannelId
  transport : TransportMode
  authResponse : Bytes
  requestLineParam : Option RequestLineParam
  headerLineParam : HeaderLineParam
  state : RequestState
  deriving DecidableEq, Repr

namespace RtspRequest

/-- A new request. The constructor leaves the first three fields as the memory has them. -/
def new (method : Method) (channelId : MediaChannelId) (transport : TransportMode) : RtspRequest :=
  ⟨method, channelId, transport, [], none, ⟨none, none, none, none, none⟩, .parseRequestLine⟩

/-- `Reset`. -/
def reset (r : RtspRequest) : RtspRequest :=
  { r with state := .parseRequestLine, requestLineParam := none, headerLineParam := ⟨none, none, none, none, none⟩ }

/-- `GotAll`. -/
def gotAll (r : RtspRequest) : Bool := r.state = .gotAll

/-- `GetCSeq`. -/
def getCSeq (r : RtspRequest) : UInt32 := r.headerLineParam.cseq.getD 0

/-- `GetRtspUrl`. -/
def getRtspUrl (r : RtspRequest) : Bytes := (r.requestLineParam.map (·.url)).getD []

/-- `GetRtspUrlSuffix`. -/
def getRtspUrlSuffix (r : RtspRequest) : Bytes := (r.requestLineParam.map (·.urlSuffix)).getD []

/-- `GetIp`. -/
def getIp (r : RtspRequest) : Bytes := (r.requestLineParam.map (·.urlIp)).getD []

/-- `GetRtpChannel`. -/
def getRtpChannel (r : RtspRequest) : UInt8 := (r.headerLineParam.rtpChannel.getD 0).toUInt8

/-- `GetRtcpChannel`. -/
def getRtcpChannel (r : RtspRequest) : UInt8 := (r.headerLineParam.rtcpChannel.getD 0).toUInt8

/-- `GetRtpPort`. -/
def getRtpPort (r : RtspRequest) : UInt16 := r.headerLineParam.rtpPort.getD 0

/-- `GetRtcpPort`. -/
def getRtcpPort (r : RtspRequest) : UInt16 := r.headerLineParam.rtcpPort.getD 0

/-! ## The request line -/

/-- The end of `ParseRequestLine`. -/
def acceptRequestLine (method : Method) (url ip : Bytes) (port : ℕ) (suffix version : Bytes) (r : RtspRequest) : RtspRequest :=
  { r with
    requestLineParam := r.requestLineParam.or (some ⟨url, ip, .ofNat port, suffix, version, method.toText⟩)
    state := .parseHeadersLine }

/-- The part of `ParseRequestLine` that parses the url. -/
def parseUrl (method : Method) (url version : Bytes) (r : RtspRequest) : Except Fault (Bool × RtspRequest) :=
  if cstr "rtsp://" <+: url then
    let withPort := Scanf.scan locale [.span (· ≠ 58) none, .literal 58, .unsigned 16, .literal 47, .word] (url.drop 7)
    let withoutPort := Scanf.scan locale [.span (· ≠ 47) none, .literal 47, .word] (url.drop 7)
    if Scanf.fits withPort [64, 0, 64] then
      match withPort with
      | [.text ip, .number port, .text suffix] => .ok (true, r.acceptRequestLine method url ip port suffix version)
      | _ =>
        if Scanf.fits withoutPort [64, 64] then
          match withoutPort with
          | [.text ip, .text suffix] => .ok (true, r.acceptRequestLine method url ip 554 suffix version)
          | _ => .ok (false, r)
        else .error .overflow
    else .error .overflow
  else .ok (false, r)

/-- `ParseRequestLine`. -/
def parseRequestLine (message : Bytes) (r : RtspRequest) : Except Fault (Bool × RtspRequest) :=
  let words := Scanf.scan locale [.word, .blank, .word, .blank, .word] (cString message)
  if Scanf.fits words [64, 512, 64] then
    match words with
    | [.text methodText, .text url, .text version] =>
      match Method.ofText methodText with
      | some method => { r with method }.parseUrl method url version
      | none => .ok (false, { r with method := .none })
    | _ => .ok (true, r)
  else .error .overflow

/-! ## The header lines -/

/-- `ParseCSeq`. -/
def parseCSeq (message : Bytes) (r : RtspRequest) : Bool × RtspRequest :=
  match find "CSeq" message with
  | some pos =>
    let cseq := match Scanf.scan locale [.skip (· ≠ 58), .literal 58, .blank, .unsigned 32] (cString (message.drop pos)) with
      | [.number cseq] => cseq
      | _ => 0
    (true, { r with headerLineParam.cseq := r.headerLineParam.cseq.or (some (.ofNat cseq)) })
  | none => (false, r)

/-- `ParseAccept`. -/
def parseAccept (message : Bytes) : Bool := (rfind "Accept" message).isSome && (rfind "sdp" message).isSome

/-- The two numbers behind the parameters of a transport. -/
def scanPair (message : Bytes) (pos : ℕ) : Option (UInt16 × UInt16) :=
  match Scanf.scan locale [.skip (· ≠ 59), .literal 59, .skip (· ≠ 59), .literal 59, .skip (· ≠ 61), .literal 61, .unsigned 16,
    .literal 45, .unsigned 16] (cString (message.drop pos)) with
  | [.number m, .number n] => some (.ofNat m, .ofNat n)
  | _ => none

/-- The two ports in the parameters. -/
def emplacePorts (ports : UInt16 × UInt16) (r : RtspRequest) : RtspRequest :=
  { r with headerLineParam := { r.headerLineParam with
      rtpPort := r.headerLineParam.rtpPort.or (some ports.1)
      rtcpPort := r.headerLineParam.rtcpPort.or (some ports.2) } }

/-- `ParseTransport`. -/
def parseTransport (message : Bytes) (r : RtspRequest) : Bool × RtspRequest :=
  match find "Transport" message with
  | none => (false, r)
  | some _ =>
    match find "RTP/AVP/TCP" message, find "RTP/AVP" message with
    | some pos, _ =>
      let r := { r with transport := .rtpOverTcp }
      match scanPair message pos with
      | some (rtpChannel, rtcpChannel) => (true, { r with headerLineParam := { r.headerLineParam with
          rtpChannel := r.headerLineParam.rtpChannel.or (some rtpChannel)
          rtcpChannel := r.headerLineParam.rtcpChannel.or (some rtcpChannel) } })
      | none => (false, r)
    | none, some pos =>
      match findFrom "unicast" pos message, findFrom "multicast" pos message with
      | some _, _ =>
        let r := { r with transport := .rtpOverUdp }
        match scanPair message pos with
        | some ports => (true, r.emplacePorts ports)
        | none => (false, r)
      | none, some _ => (true, { r with transport := .rtpOverMulticast }.emplacePorts (0, 0))
      | none, none => (false, r)
    | none, none => (false, r)

/-- `ParseSessionId`. -/
def parseSessionId (message : Bytes) : Bool :=
  match find "Session" message with
  | some pos =>
    match Scanf.scan locale [.skip (· ≠ 58), .literal 58, .blank, .unsigned 32] (cString (message.drop pos)) with
    | [.number _] => true
    | _ => false
  | none => false

/-- `ParseMediaChannel`. -/
def parseMediaChannel (r : RtspRequest) : RtspRequest :=
  { r with channelId := if (find "track1" r.getRtspUrl).isSome then channel1 else channel0 }

/-- `ParseAuthorization`, with what it leaves in `auth_response_`. -/
def parseAuthorization (message : Bytes) : Except Fault Bytes :=
  match find "Authorization" message, find "response=" message with
  | some _, some pos => do
    let response ← substr (pos + 10) 32 message
    return if response.length = 32 then response else []
  | _, _ => return []

/-- The call of `ParseAuthorization` in `ParseHeadersLine`. -/
def storeAuthorization (message : Bytes) (r : RtspRequest) : Except Fault RtspRequest :=
  match r.method with
  | .describe | .setup | .play => do
    let authResponse ← parseAuthorization message
    return { r with authResponse }
  | _ => return r

/-- The rest of `ParseHeadersLine`, where each method has a line that it waits for. -/
def parseMethodLine (message : Bytes) (r : RtspRequest) : RtspRequest :=
  match r.method with
  | .options | .teardown | .getParameter => { r with state := .gotAll }
  | .describe => if parseAccept message then { r with state := .gotAll } else r
  | .setup =>
    let (found, r) := r.parseTransport message
    if found then { r.parseMediaChannel with state := .gotAll } else r
  | .play => if parseSessionId message then { r with state := .gotAll } else r
  | .rtcp | .none => r

/-- `ParseHeadersLine`. -/
def parseHeadersLine (message : Bytes) (r : RtspRequest) : Except Fault (Bool × RtspRequest) := do
  let (found, r) := r.parseCSeq message
  if !found && r.headerLineParam.cseq.isNone then return (false, r)
  let r ← r.storeAuthorization message
  return (true, r.parseMethodLine message)

/-! ## `ParseRequest` -/

/-- The turn of the loop in `kParseRequestLine`, up to the test of the state. -/
def firstTurn (b : BufferReader) (r : RtspRequest) : Except Fault (Bool × RtspRequest × BufferReader) :=
  match b.findFirstCrlf with
  | some firstCrlf => do
    let (ret, r) ← r.parseRequestLine (b.readable.take firstCrlf)
    return (ret, r, b.retrieve (firstCrlf + 2))
  | none => return (true, r, b)

/-- The turn in `kParseHeadersLine`. -/
def headersTurn (ret : Bool) (b : BufferReader) (r : RtspRequest) : Except Fault (Bool × RtspRequest × BufferReader) :=
  match b.findLastCrlf with
  | some lastCrlf => do
    let (ret, r) ← r.parseHeadersLine (b.readable.take lastCrlf)
    return (ret, r, b.retrieve (lastCrlf + 2))
  | none => return (ret, r, b)

/-- `ParseRequest`. Only an accepted request line leads to a second turn. -/
def parseRequest (b : BufferReader) (r : RtspRequest) : Except Fault (Bool × RtspRequest × BufferReader) :=
  if b.readable.head? = some 36 then return (true, { r with method := .rtcp }, b)
  else
    match r.state with
    | .parseRequestLine => do
      let (ret, r, b) ← r.firstTurn b
      if r.state = .parseHeadersLine then r.headersTurn ret b else return (ret, r, b)
    | .parseHeadersLine => r.headersTurn true b
    | .gotAll => return (true, r, b.retrieveAll)

end RtspRequest

/-! ## Answers -/

/-- `snprintf` into an array of this size. -/
def snprintf (size : ℕ) (text : Bytes) : Bytes := (cString text).take (size - 1)

/-- `%u`. -/
def percentU (n : UInt32) : Bytes := (Nat.toDigits 10 n.toNat).map fun c => .ofNat c.toNat

namespace RtspRequest

/-- `BuildOptionRes`. -/
def buildOptionRes (size : ℕ) (r : RtspRequest) : Bytes :=
  snprintf size (cstr "RTSP/1.0 200 OK\r\nCSeq: " ++ percentU r.getCSeq ++
    cstr "\r\nPublic: OPTIONS, DESCRIBE, SETUP, TEARDOWN, PLAY\r\n\r\n")

/-- `BuildDescribeRes`. -/
def buildDescribeRes (size : ℕ) (sdp : Bytes) (r : RtspRequest) : Bytes :=
  snprintf size (cstr "RTSP/1.0 200 OK\r\nCSeq: " ++ percentU r.getCSeq ++ cstr "\r\nContent-Length: " ++
    percentD (.ofNat (cString sdp).length) ++ cstr "\r\nContent-Type: application/sdp\r\n\r\n" ++ cString sdp)

/-- `BuildSetupMulticastRes`. -/
def buildSetupMulticastRes (size : ℕ) (multicastIp : Bytes) (port : UInt16) (sessionId : UInt32) (r : RtspRequest) : Bytes :=
  snprintf size (cstr "RTSP/1.0 200 OK\r\nCSeq: " ++ percentU r.getCSeq ++ cstr "\r\nTransport: RTP/AVP;multicast;destination=" ++
    cString multicastIp ++ cstr ";source=" ++ cString r.getIp ++ cstr ";port=" ++ percentU port.toUInt32 ++
    cstr "-0;ttl=255\r\nSession: " ++ percentU sessionId ++ cstr "\r\n\r\n")

/-- `BuildSetupUdpRes`. -/
def buildSetupUdpRes (size : ℕ) (rtpChn rtcpChn : UInt16) (sessionId : UInt32) (r : RtspRequest) : Bytes :=
  snprintf size (cstr "RTSP/1.0 200 OK\r\nCSeq: " ++ percentU r.getCSeq ++ cstr "\r\nTransport: RTP/AVP;unicast;client_port=" ++
    percentU r.getRtpPort.toUInt32 ++ cstr "-" ++ percentU r.getRtcpPort.toUInt32 ++ cstr ";server_port=" ++
    percentU rtpChn.toUInt32 ++ cstr "-" ++ percentU rtcpChn.toUInt32 ++ cstr "\r\nSession: " ++ percentU sessionId ++
    cstr "\r\n\r\n")

/-- `BuildSetupTcpRes`. -/
def buildSetupTcpRes (size : ℕ) (rtpChn rtcpChn : UInt16) (sessionId : UInt32) (r : RtspRequest) : Bytes :=
  snprintf size (cstr "RTSP/1.0 200 OK\r\nCSeq: " ++ percentU r.getCSeq ++ cstr "\r\nTransport: RTP/AVP/TCP;unicast;interleaved=" ++
    percentU rtpChn.toUInt32 ++ cstr "-" ++ percentU rtcpChn.toUInt32 ++ cstr "\r\nSession: " ++ percentU sessionId ++
    cstr "\r\n\r\n")

/-- `BuildPlayRes` without `rtp_info`, which its caller does not give. -/
def buildPlayRes (size : ℕ) (sessionId : UInt32) (r : RtspRequest) : Bytes :=
  snprintf size (cstr "RTSP/1.0 200 OK\r\nCSeq: " ++ percentD r.getCSeq.toInt32 ++ cstr "\r\nRange: npt=0.000-\r\nSession: " ++
    percentU sessionId ++ cstr "; timeout=60\r\n\r\n")

/-- `BuildTeardownRes` and `BuildGetParamterRes`, which are the same. -/
def buildTeardownRes (size : ℕ) (sessionId : UInt32) (r : RtspRequest) : Bytes :=
  snprintf size (cstr "RTSP/1.0 200 OK\r\nCSeq: " ++ percentD r.getCSeq.toInt32 ++ cstr "\r\nSession: " ++ percentU sessionId ++
    cstr "\r\n\r\n")

/-- `BuildNotFoundRes`. -/
def buildNotFoundRes (size : ℕ) (r : RtspRequest) : Bytes :=
  snprintf size (cstr "RTSP/1.0 404 Stream Not Found\r\nCSeq: " ++ percentU r.getCSeq ++ cstr "\r\n\r\n")

/-- `BuildServerErrorRes`. -/
def buildServerErrorRes (size : ℕ) (r : RtspRequest) : Bytes :=
  snprintf size (cstr "RTSP/1.0 500 Internal Server Error\r\nCSeq: " ++ percentU r.getCSeq ++ cstr "\r\n\r\n")

/-- `BuildUnsupportedRes`. -/
def buildUnsupportedRes (size : ℕ) (r : RtspRequest) : Bytes :=
  snprintf size (cstr "RTSP/1.0 461 Unsupported transport\r\nCSeq: " ++ percentD r.getCSeq.toInt32 ++ cstr "\r\n\r\n")

/-- `BuildUnauthorizedRes`. -/
def buildUnauthorizedRes (size : ℕ) (realm nonce : Bytes) (r : RtspRequest) : Bytes :=
  snprintf size (cstr "RTSP/1.0 401 Unauthorized\r\nCSeq: " ++ percentD r.getCSeq.toInt32 ++
    cstr "\r\nWWW-Authenticate: Digest realm=\"" ++ cString realm ++ cstr "\", nonce=\"" ++ cString nonce ++ cstr "\"\r\n\r\n")

end RtspRequest

end AuthVideo.Xop
