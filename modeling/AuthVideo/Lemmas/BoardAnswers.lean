import AuthVideo.Lemmas.BoardExchanges

/-!
# What the server answers

The handlers of the three methods for the one session of the server, and what the board finds in the answers.
-/

namespace AuthVideo

open Xop

/-! ## Lengths -/

/-- The session of the server before anyone has asked for it. -/
def liveSession : MediaSession := ⟨2, cstr "live", fun channel => if channel = channel0 then some h265Source else none, none, [], []⟩

theorem lookSuffix_live : liveServer.lookSuffix (cstr "live") = some liveSession := rfl

/-- A text of digits is short. -/
theorem length_toDigits_uint64 (n : UInt64) : (Nat.toDigits 10 n.toNat).length ≤ 20 :=
  (Nat.length_toDigits_le_iff (by decide) (by decide)).mpr (by have := n.toNat_lt; omega)

/-- So is one of `%d`. -/
theorem length_percentD_le (n : Int32) : (percentD n).length ≤ 11 := by
  have habs : n.toInt.natAbs < 10 ^ 10 := by
    have hle := n.toInt_lt
    have hge := n.le_toInt
    omega
  have hdigits : (Nat.toDigits 10 n.toInt.natAbs).length ≤ 10 := (Nat.length_toDigits_le_iff (by decide) (by decide)).mpr habs
  unfold percentD
  rw [List.length_append, List.length_map]
  split
  · simp only [List.length_singleton]
    omega
  · simp only [List.length_nil]
    omega

/-- `snprintf` writes no more than it is given. -/
theorem length_snprintf_le (size : ℕ) (s : Bytes) : (snprintf size s).length ≤ s.length := by
  unfold snprintf
  rw [List.length_take]
  exact (Nat.min_le_right _ _).trans (List.takeWhile_sublist _).length_le

/-- It writes something where the text begins with a byte that is not zero. -/
theorem snprintf_ne_nil {size : ℕ} (hsize : 1 < size) {b : UInt8} (hb : b ≠ 0) (s : Bytes) : snprintf size (b :: s) ≠ [] := by
  unfold snprintf cString
  rw [List.takeWhile_cons_of_pos (by simpa using hb)]
  obtain ⟨n, rfl⟩ := Nat.exists_eq_add_of_le hsize
  rw [show 1 + 1 + n - 1 = n + 1 by omega, List.take_succ_cons]
  simp

/-- The description of the session is short, and never empty. -/
theorem writeSdp_live (time : UInt64) {ip : Bytes} (hip : ip.length ≤ 15) {session : MediaSession}
    (hsources : session.sources = liveSession.sources) (hmulticast : session.multicast = none) :
    session.writeSdp time ip [] ≠ [] ∧ (session.writeSdp time ip []).length ≤ 300 := by
  have hfirst : session.sourceLines channel0 = cstr "m=video 0 RTP/AVP 96\r\na=rtpmap:96 H265/90000\r\na=control:track0\r\n" := by
    unfold MediaSession.sourceLines
    rw [hsources, hmulticast]
    rfl
  have hsecond : session.sourceLines channel1 = [] := by
    unfold MediaSession.sourceLines
    rw [hsources]
    rfl
  unfold MediaSession.writeSdp
  rw [hfirst, hsecond, hmulticast]
  refine ⟨snprintf_ne_nil (by decide) (b := 118) (by decide) _, (length_snprintf_le _ _).trans ?_⟩
  have hdigits := length_toDigits_uint64 time
  have hconst : (cstr "v=0\r\no=- 9").length = 10 ∧ (cstr " 1 IN IP4 ").length = 10 ∧ (cstr "\r\nt=0 0\r\na=control:*\r\n").length = 22 ∧
      (cstr "m=video 0 RTP/AVP 96\r\na=rtpmap:96 H265/90000\r\na=control:track0\r\n").length = 64 := ⟨rfl, rfl, rfl, rfl⟩
  simp only [List.length_append, List.length_map, List.length_nil, if_true, Option.isSome_none, Bool.false_eq_true, if_false]
  omega

/-- What is looked up behind a change is what was there, changed. -/
theorem RtspServer.lookId_modify (id : ℕ) (f : MediaSession → MediaSession)
    (hf : ∀ session, (f session).sessionId = session.sessionId ∧ (f session).suffix = session.suffix) (server : RtspServer) :
    (server.modify id f hf).lookId id = (server.lookId id).map f := by
  have hsame : ((fun session : MediaSession => decide (session.sessionId = id)) ∘
      fun session => if session.sessionId = id then f session else session) = fun session => decide (session.sessionId = id) := by
    funext session
    rw [Function.comp_apply]
    split
    · rw [(hf session).1]
    · rfl
  unfold RtspServer.lookId RtspServer.modify
  dsimp only
  rw [List.find?_map, hsame]
  refine Option.map_congr fun session hsession => ?_
  rw [if_pos (by simpa using List.find?_some hsession)]

section Answers

variable {H : Bytes → Bytes} {a : RtspArrival} {c : RtspConnection} {channel : MediaChannelId} {transport : TransportMode}
  {b : BufferReader}

/-- It fits into the buffer of the board. -/
theorem length_buildDescribeRes_le {r : RtspRequest} (hr : r = describeExchange.final channel transport) {sdp : Bytes}
    (hsdp : sdp.length ≤ 300) : (r.buildDescribeRes 4096 sdp).length ≤ 1000 := by
  refine (length_snprintf_le _ _).trans ?_
  have hnumber := length_percentD_le (.ofNat (cString sdp).length)
  have hstring : (cString sdp).length ≤ 300 := (List.takeWhile_sublist _).length_le.trans hsdp
  have hcseq : (percentU r.getCSeq).length = 1 := by
    rw [hr]
    exact (by decide : (percentU 1).length = 1)
  have hconst : (cstr "RTSP/1.0 200 OK\r\nCSeq: ").length = 23 ∧ (cstr "\r\nContent-Length: ").length = 18 ∧
      (cstr "\r\nContent-Type: application/sdp\r\n\r\n").length = 35 := ⟨rfl, rfl, rfl⟩
  simp only [List.length_append]
  omega

/-- The answer to `DESCRIBE`: the board is a client of the session, and there is a stream for it. -/
theorem describe_live (hrequest : c.request = describeExchange.final channel transport) (hstream : c.rtpConn = none)
    (hserver : a.server = liveServer) (hip : a.ip.length ≤ 15) :
    ∃ text server e session, c.describe a = .ok ([.joined 2, .sent text], server, { c with sessionId := 2, rtpConn := some e }) ∧
      text ≠ [] ∧ text.length ≤ 1000 ∧ e.isClosed = false ∧ server.lookId 2 = some session ∧ session.multicast = none := by
  have hlook : a.server.lookSuffix c.request.getRtspUrlSuffix = some liveSession := by
    rw [hserver, hrequest]
    exact lookSuffix_live
  obtain ⟨hne, hlen⟩ := writeSdp_live a.time hip
    (rfl : (liveSession.addClient c.socket).sources = liveSession.sources) rfl
  have hversion : a.server.version = [] := by rw [hserver]; rfl
  have hsdp : ((liveSession.addClient c.socket).getSdpMessage a.time a.ip a.server.version).sdp =
      (liveSession.addClient c.socket).writeSdp a.time a.ip [] := by
    rw [hversion]
    rfl
  have hclosed : (c.endpoint a).isClosed = false := by
    unfold RtspConnection.endpoint
    rw [hstream]
    rfl
  unfold RtspConnection.describe
  rw [hlook]
  dsimp only
  rw [if_neg (by rw [hsdp]; exact hne)]
  refine ⟨_, _, _, (liveSession.addClient c.socket).getSdpMessage a.time a.ip a.server.version, rfl, ?_, ?_, ?_, ?_, rfl⟩
  · exact snprintf_ne_nil (by decide) (b := 82) (by decide) _
  · exact length_buildDescribeRes_le hrequest (hsdp ▸ hlen)
  · rw [isClosed_setSource, isClosed_setSource]
    exact hclosed
  · have hfound : a.server.lookId 2 = some liveSession := by
      rw [hserver]
      rfl
    have hid : ((liveSession.addClient c.socket).getSdpMessage a.time a.ip a.server.version).sessionId = 2 := by
      unfold MediaSession.getSdpMessage
      split <;> rfl
    simp only [hid]
    rw [RtspServer.lookId_modify, hfound]
    rfl

/-- The answer to `SETUP`: the stream goes to the ports of the board. -/
theorem setup_live {e : RtpEndpoint} {session : MediaSession} {p q : UInt16} (hrequest : c.request = setupExchange.final channel transport)
    (hstream : c.rtpConn = some e) (hlook : a.server.lookId c.sessionId = some session) (hunicast : session.multicast = none)
    (hports : a.boundPorts = some (p, q)) :
    c.setup a = .ok ([.sent ((setupExchange.final channel transport).buildSetupUdpRes 4096 p q e.address.toUInt32)], a.server,
      { c with rtpConn := some (e.setupRtpOverUdp channel0 5008 5009 (some (p, q))).2 }) := by
  unfold RtspConnection.setup
  rw [hlook]
  dsimp only
  rw [hunicast, hstream, hrequest, hports]
  rfl

end Answers

/-! ## The number of the session -/

/-- `snprintf` leaves no zero in a text. -/
theorem cString_snprintf (size : ℕ) (s : Bytes) : cString (snprintf size s) = snprintf size s := by
  refine cString_eq fun hzero => ?_
  have hmem := List.mem_takeWhile_imp ((List.take_sublist _ _).subset hzero)
  simp at hmem

section Session

variable {p q address : UInt16} {channel : MediaChannelId} {transport : TransportMode}

/-- The lines of the answer to `SETUP` in front of the number of the session. -/
def transportLine (p q : UInt16) : Bytes :=
  cstr "2\r\nTransport: RTP/AVP;unicast;client_port=5008-5009;server_port=" ++ percentU p.toUInt32 ++ cstr "-" ++ percentU q.toUInt32 ++
    cstr "\r\n"

/-- A byte that is no digit comes in them only where it comes in their constant parts. -/
theorem notMem_transportLine {b : UInt8} (hdigit : isdigit b = false)
    (hfront : b ∉ cstr "2\r\nTransport: RTP/AVP;unicast;client_port=5008-5009;server_port=") (hdash : b ∉ cstr "-")
    (hend : b ∉ cstr "\r\n") : b ∉ transportLine p q := by
  unfold transportLine
  simp only [List.mem_append, not_or]
  exact ⟨⟨⟨⟨hfront, notMem_percentU hdigit _⟩, hdash⟩, notMem_percentU hdigit _⟩, hend⟩

theorem length_transportLine_le : (transportLine p q).length ≤ 80 := by
  have hp := length_percentU_le p
  have hq := length_percentU_le q
  have hconst : (cstr "2\r\nTransport: RTP/AVP;unicast;client_port=5008-5009;server_port=").length = 64 ∧ (cstr "-").length = 1 ∧
      (cstr "\r\n").length = 2 := ⟨rfl, rfl, rfl⟩
  unfold transportLine
  simp only [List.length_append]
  omega

/-- The answer to `SETUP` is written whole. -/
theorem buildSetupUdpRes_eq :
    (setupExchange.final channel transport).buildSetupUdpRes 4096 p q address.toUInt32 =
      cstr "RTSP/1.0 200 OK\r\nCSeq: " ++ (transportLine p q ++ (cstr "Session:" ++ (32 :: (percentU address.toUInt32 ++ cstr "\r\n\r\n")))) := by
  have htext : (setupExchange.final channel transport).buildSetupUdpRes 4096 p q address.toUInt32 = snprintf 4096
      (cstr "RTSP/1.0 200 OK\r\nCSeq: " ++ (transportLine p q ++ (cstr "Session:" ++
        (32 :: (percentU address.toUInt32 ++ cstr "\r\n\r\n"))))) := by
    unfold RtspRequest.buildSetupUdpRes transportLine
    rw [show percentU (setupExchange.final channel transport).getCSeq = cstr "2" from (by decide : percentU 2 = cstr "2"),
      show percentU (setupExchange.final channel transport).getRtpPort.toUInt32 = cstr "5008" from (by decide : percentU 5008 = cstr "5008"),
      show percentU (setupExchange.final channel transport).getRtcpPort.toUInt32 = cstr "5009" from (by decide : percentU 5009 = cstr "5009")]
    simp [cstr]
  rw [htext]
  refine snprintf_eq ?_ ?_
  · simp only [List.mem_append, List.mem_cons, not_or]
    exact ⟨by decide, notMem_transportLine (by decide) (by decide) (by decide) (by decide), by decide, by decide,
      notMem_percentU (by decide) _, by decide⟩
  · have hline := length_transportLine_le (p := p) (q := q)
    have haddress := length_percentU_le address
    have hconst : (cstr "RTSP/1.0 200 OK\r\nCSeq: ").length = 23 ∧ (cstr "Session:").length = 8 ∧ (cstr "\r\n\r\n").length = 4 :=
      ⟨rfl, rfl, rfl⟩
    simp only [List.length_append, List.length_cons]
    omega

/-- The board finds the number in the answer. -/
theorem readSession_setup {board : RtspClient}
    (hbuf : board.buf = (setupExchange.final channel transport).buildSetupUdpRes 4096 p q address.toUInt32) :
    board.readSession = .ok { board with sessionId := percentU address.toUInt32 } := by
  have hfind : find "Session:" board.buf = some ((cstr "RTSP/1.0 200 OK\r\nCSeq: ").length + (transportLine p q).length) := by
    unfold find
    rw [hbuf, buildSetupUdpRes_eq, Search.first_append_of_clash (by decide), show cstr "Session:" = 83 :: cstr "ession:" from rfl,
      Search.first_append (notMem_transportLine (by decide) (by decide) (by decide) (by decide))]
    rfl
  have hdrop : board.buf.drop ((cstr "RTSP/1.0 200 OK\r\nCSeq: ").length + (transportLine p q).length) =
      cstr "Session:" ++ (32 :: (percentU address.toUInt32 ++ cstr "\r\n\r\n")) := by
    rw [hbuf, buildSetupUdpRes_eq, List.drop_length_add_append, List.drop_left]
  have hscan : Scanf.scan locale ((cstr "Session:").map .literal ++ [.blank, .span (fun b => b ∉ [59, 13, 10]) (some 63)])
      (cstr "Session:" ++ (32 :: (percentU address.toUInt32 ++ cstr "\r\n\r\n"))) = [.text (percentU address.toUInt32)] := by
    rw [Scanf.scan_literals, Scanf.scan_cons (read_blank _ _), List.nil_append, Scanf.scan_span]
    · rfl
    · intro b hb
      have hdigit := isdigit_of_mem_percentU hb
      simp only [List.mem_cons, List.not_mem_nil, or_false, not_or, decide_eq_true_eq]
      refine ⟨?_, ?_, ?_⟩ <;> rintro rfl <;> exact absurd hdigit (by decide)
    · exact percentU_ne_nil _
    · exact (length_percentU_le address).trans (by decide)
    · simp [cstr]
  unfold RtspClient.readSession
  rw [hfind]
  dsimp only
  rw [hdrop, hscan]

end Session

end AuthVideo
