import AuthVideo.Xop.RtspMessage

/-!
# The RTSP client of the forwarding board

`rtsp_handshake` sends three requests and calls `recv` once behind each. It reads the number of the session from the second answer
and looks at nothing else.
-/

namespace AuthVideo

open Xop

/-- `RTSP_URL`. -/
def rtspUrl : Bytes := cstr "rtsp://10.25.9.28:5543/live"

/-- Where `rtsp_handshake` stands. -/
inductive ClientPc where
  | describe
  | awaitDescribe
  | setup
  | awaitSetup
  | play
  | awaitPlay
  | done
  deriving DecidableEq, Repr

/-- The variables of `rtsp_handshake`. `buf` is the text in its buffer. -/
structure RtspClient where
  pc : ClientPc
  cseq : Int32
  buf : Bytes
  sessionId : Bytes
  deriving DecidableEq, Repr

namespace RtspClient

/-- The board when its connection is made. `buf` is what the stack holds. -/
def new (buf : Bytes) : RtspClient := ⟨.describe, 1, buf, []⟩

/-- `rtsp_send`: what goes out. -/
def rtspSend (text : Bytes) : Bytes := snprintf 512 text

/-- The text of the first request. -/
def describeText (cseq : Int32) : Bytes :=
  cstr "DESCRIBE " ++ rtspUrl ++ cstr " RTSP/1.0\r\nCSeq: " ++ percentD cseq ++ cstr "\r\nAccept: application/sdp\r\n\r\n"

/-- The text of the second request. -/
def setupText (cseq : Int32) : Bytes :=
  cstr "SETUP " ++ rtspUrl ++ cstr "/trackID=1 RTSP/1.0\r\nCSeq: " ++ percentD cseq ++
    cstr "\r\nTransport: RTP/AVP;unicast;client_port=" ++ percentD 5008 ++ cstr "-" ++ percentD 5009 ++ cstr "\r\n\r\n"

/-- The text of the third request. -/
def playText (cseq : Int32) (sessionId : Bytes) : Bytes :=
  cstr "PLAY " ++ rtspUrl ++ cstr " RTSP/1.0\r\nCSeq: " ++ percentD cseq ++ cstr "\r\nSession: " ++ sessionId ++
    cstr "\r\nRange: npt=0.000-\r\n\r\n"

/-- The next request, where the board is about to send one. -/
def send (c : RtspClient) : Option (Bytes × RtspClient) :=
  match c.pc with
  | .describe => some (rtspSend (describeText c.cseq), { c with pc := .awaitDescribe, cseq := c.cseq + 1 })
  | .setup => some (rtspSend (setupText c.cseq), { c with pc := .awaitSetup, cseq := c.cseq + 1 })
  | .play => some (rtspSend (playText c.cseq c.sessionId), { c with pc := .awaitPlay, cseq := c.cseq + 1 })
  | .awaitDescribe | .awaitSetup | .awaitPlay | .done => none

/-- The lines behind the second `rtsp_recv`: `strstr`, and `sscanf` on what it gives. -/
def readSession (c : RtspClient) : Except Fault RtspClient :=
  match find "Session:" c.buf with
  | none => .error .nullPointer
  | some pos =>
    match Scanf.scan locale ((cstr "Session:").map .literal ++ [.blank, .span (fun b => b ∉ [59, 13, 10]) (some 63)])
      (c.buf.drop pos) with
    | [.text sessionId] => .ok { c with sessionId }
    | _ => .ok c

/-- `rtsp_recv` and what follows it, where `recv` gives these bytes. A `recv` that gives nothing leaves the buffer as it is. -/
def receive (bytes : Bytes) (c : RtspClient) : Option (Except Fault RtspClient) :=
  let c' := if bytes = [] then c else { c with buf := cString bytes }
  match c.pc with
  | .awaitDescribe => some (.ok { c' with pc := .setup })
  | .awaitSetup => some ({ c' with pc := .play }.readSession)
  | .awaitPlay => some (.ok { c' with pc := .done })
  | .describe | .setup | .play | .done => none

end RtspClient

end AuthVideo
