import AuthVideo.Lemmas.BoardAnswers

/-!
# The rounds of the handshake

The handler of each request leaves an answer that takes the board to the next one. Behind an answer the server may have left bytes of
the request unread, and those come in front of the next.
-/

namespace AuthVideo

open Xop Lines

namespace Handshake

/-! ## The rounds -/

/-- A request of the board. -/
inductive Round where
  | describe
  | setup
  | play
  deriving DecidableEq

namespace Round

/-- Where the board stands in front of the request. -/
def send : Round → ClientPc
  | .describe => .describe
  | .setup => .setup
  | .play => .play

/-- Where it waits for the answer. -/
def await : Round → ClientPc
  | .describe => .awaitDescribe
  | .setup => .awaitSetup
  | .play => .awaitPlay

/-- The number of the request. -/
def cseq : Round → Int32
  | .describe => 1
  | .setup => 2
  | .play => 3

/-- How many requests are answered before. -/
def answers : Round → ℕ
  | .describe => 0
  | .setup => 1
  | .play => 2

/-- The lines of the request. -/
def exchange (address : UInt16) : Round → Exchange
  | .describe => describeExchange
  | .setup => setupExchange
  | .play => playExchange address.toUInt32

theorem understood (address : UInt16) : ∀ r : Round, (r.exchange address).Understood
  | .describe => understood_describe
  | .setup => understood_setup
  | .play => understood_play address

end Round

/-- The board in front of a request. -/
structure Sends (r : Round) (address : UInt16) (board : RtspClient) : Prop where
  pc : board.pc = r.send
  cseq : board.cseq = r.cseq
  sessionId : r = .play → board.sessionId = percentU address.toUInt32

/-- The board behind a request. -/
structure Awaits (r : Round) (address : UInt16) (board : RtspClient) : Prop where
  pc : board.pc = r.await
  cseq : board.cseq = r.cseq + 1
  sessionId : r = .play → board.sessionId = percentU address.toUInt32

/-- The board behind an answer. -/
def Goes (address : UInt16) (board : RtspClient) : Round → Prop
  | .describe => Sends .setup address board
  | .setup => Sends .play address board
  | .play => board.pc = .done ∧ board.sessionId = percentU address.toUInt32

/-- The request that the board sends. -/
theorem Sends.send {r : Round} {address : UInt16} {board : RtspClient} (h : Sends r address board) :
    board.send = some ((r.exchange address).text, { board with pc := r.await, cseq := board.cseq + 1 }) := by
  obtain ⟨hpc, hcseq, hsession⟩ := h
  unfold RtspClient.send
  rw [hpc, hcseq]
  cases r with
  | describe => exact congrArg (fun text => some (text, _)) (by decide : RtspClient.rtspSend (RtspClient.describeText 1) = describeExchange.text)
  | setup => exact congrArg (fun text => some (text, _)) (by decide : RtspClient.rtspSend (RtspClient.setupText 2) = setupExchange.text)
  | play =>
    have htext : RtspClient.rtspSend (RtspClient.playText 3 (percentU address.toUInt32)) = (playExchange address.toUInt32).text := by
      have hlen := length_percentU_le address
      have hplay : RtspClient.playText 3 (percentU address.toUInt32) = (playExchange address.toUInt32).text := by
        unfold RtspClient.playText
        rw [show percentD 3 = cstr "3" by decide]
        simp [Exchange.text, Exchange.lines, playExchange, cstr, rtspUrl]
      unfold RtspClient.rtspSend
      rw [hplay]
      refine snprintf_eq ?_ ((understood_play address).short.trans_lt (by decide))
      rw [← hplay]
      unfold RtspClient.playText
      simp only [List.mem_append, not_or]
      exact ⟨⟨⟨⟨⟨⟨by decide, by decide⟩, by decide⟩, by decide⟩, by decide⟩, notMem_percentU (by decide) _⟩, by decide⟩
    dsimp only [Round.send]
    rw [hsession rfl]
    exact congrArg (fun text => some (text, _)) htext

theorem Sends.awaits {r : Round} {address : UInt16} {board : RtspClient} (h : Sends r address board) :
    Awaits r address { board with pc := r.await, cseq := board.cseq + 1 } :=
  ⟨rfl, by rw [← h.cseq], h.sessionId⟩

/-! ## The answers -/

/-- The address that an answer shows. -/
def addressOf (c : RtspConnection) : UInt16 := (c.rtpConn.map (·.address)).getD 0

/-- The server behind so many answers. -/
structure Served (n : ℕ) (c : RtspConnection) (sessions : RtspServer) : Prop where
  isOpen : c.isClosed = false
  authInfo : c.authInfo = none
  first : n = 0 → c.rtpConn = none ∧ sessions = liveServer
  joined : 1 ≤ n → ∃ e session, c.rtpConn = some e ∧ e.isClosed = false ∧ sessions.lookId c.sessionId = some session ∧
    session.multicast = none
  ready : 2 ≤ n → ∃ e, c.rtpConn = some e ∧ (e.info channel0).isSetup = true ∧ e.overTcp = false ∧ e.rtpPort channel0 = 5008 ∧ e.rtcpPort channel0 = 5009
  on : 3 ≤ n → ∃ e, c.rtpConn = some e ∧ (e.info channel0).isPlay = true

section Answer

variable {H : Bytes → Bytes} {a : RtspArrival} {c : RtspConnection} {sessions : RtspServer} {channel : MediaChannelId}
  {transport : TransportMode} {address : UInt16} {board : RtspClient}

/-- Where the parser and the reader stand does not matter. -/
theorem Served.congr {n : ℕ} (h : Served n c sessions) (r : RtspRequest) (b : BufferReader) :
    Served n { c with request := r, readBuffer := b } sessions := ⟨h.isOpen, h.authInfo, h.first, h.joined, h.ready, h.on⟩

/-- What a handler leaves for the board. -/
structure Answered (H : Bytes → Bytes) (r : Round) (a : RtspArrival) (c : RtspConnection) : Prop where
  answer : ∃ events server c', c.handleMethod H a = .ok (events, server, c') ∧ c'.readBuffer = c.readBuffer ∧
    Served (r.answers + 1) c' server ∧ Handshake.textsOf events ≠ [] ∧ (Handshake.textsOf events).length ≤ 1023 ∧
    ∀ board, Awaits r (addressOf c) board → ∃ board', board.receive (Handshake.textsOf events) = some (.ok board') ∧
      Goes (addressOf c') board' r

theorem answered_describe (hserved : Served 0 c a.server) (hrequest : c.request = describeExchange.final channel transport)
    (hip : a.ip.length ≤ 15) : Answered H .describe a c := by
  obtain ⟨hstream, hserver⟩ := hserved.first rfl
  obtain ⟨text, server, e, session, hdescribe, hne, hlen, hopen, hlook, hunicast⟩ := describe_live hrequest hstream hserver hip
  have hmethod : c.request.method = .describe := by
    rw [hrequest]
    rfl
  refine ⟨_, _, _, (RtspConnection.handleMethod_of_describe (Or.inl hserved.authInfo) hmethod).trans hdescribe, rfl, ?_, ?_, ?_, fun board hboard => ?_⟩
  · exact ⟨hserved.isOpen, hserved.authInfo, by simp [Round.answers], fun _ => ⟨e, session, rfl, hopen, hlook, hunicast⟩,
      by simp [Round.answers], by simp [Round.answers]⟩
  · simpa [Handshake.textsOf] using hne
  · simpa [Handshake.textsOf] using hlen.trans (by decide)
  · obtain ⟨hpc, hcseq, -⟩ := hboard
    refine ⟨{ board with buf := cString text, pc := .setup }, ?_, rfl, hcseq, by simp⟩
    unfold RtspClient.receive
    rw [hpc]
    simp [Handshake.textsOf, hne, Round.await]

theorem answered_setup (hserved : Served 1 c a.server) (hrequest : c.request = setupExchange.final channel transport)
    (hports : a.boundPorts.isSome = true) : Answered H .setup a c := by
  obtain ⟨e, session, hstream, hopen, hlook, hunicast⟩ := hserved.joined (le_refl 1)
  obtain ⟨⟨p, q⟩, hports⟩ := Option.isSome_iff_exists.mp hports
  have hmethod : c.request.method = .setup := by
    rw [hrequest]
    rfl
  have hne : (setupExchange.final channel transport).buildSetupUdpRes 4096 p q e.address.toUInt32 ≠ [] :=
    snprintf_ne_nil (by decide) (b := 82) (by decide) _
  refine ⟨_, _, _, (RtspConnection.handleMethod_of_setup (Or.inl hserved.authInfo) hmethod).trans (setup_live hrequest hstream hlook hunicast hports), rfl,
    ?_, ?_, ?_, fun board hboard => ?_⟩
  · refine ⟨hserved.isOpen, hserved.authInfo, by simp [Round.answers], fun _ => ⟨_, session, rfl, hopen, hlook, hunicast⟩,
      fun _ => ⟨_, rfl, ?_, rfl, ?_, ?_⟩, by simp [Round.answers]⟩ <;>
      simp [RtpEndpoint.setupRtpOverUdp, RtpConnection.setup, RtpConnection.setInfo]
  · simpa [Handshake.textsOf] using hne
  · have hline := length_transportLine_le (p := p) (q := q)
    have haddress := length_percentU_le e.address
    have hconst : (cstr "RTSP/1.0 200 OK\r\nCSeq: ").length = 23 ∧ (cstr "Session:").length = 8 ∧ (cstr "\r\n\r\n").length = 4 :=
      ⟨rfl, rfl, rfl⟩
    simp only [Handshake.textsOf, List.map_cons, List.map_nil, List.flatten_cons, List.flatten_nil, List.append_nil, buildSetupUdpRes_eq,
      List.length_append, List.length_cons]
    omega
  · obtain ⟨hpc, hcseq, -⟩ := hboard
    have hsession := readSession_setup (rfl : { board with
        buf := (setupExchange.final channel transport).buildSetupUdpRes 4096 p q e.address.toUInt32
        pc := .play }.buf = (setupExchange.final channel transport).buildSetupUdpRes 4096 p q e.address.toUInt32)
    refine ⟨{ board with
      buf := (setupExchange.final channel transport).buildSetupUdpRes 4096 p q e.address.toUInt32
      pc := .play
      sessionId := percentU e.address.toUInt32 }, ?_, rfl, hcseq, fun _ => rfl⟩
    unfold RtspClient.receive
    rw [hpc]
    simp only [Handshake.textsOf, List.map_cons, List.map_nil, List.flatten_cons, List.flatten_nil, List.append_nil, if_neg hne]
    rw [show cString ((setupExchange.final channel transport).buildSetupUdpRes 4096 p q e.address.toUInt32) =
      (setupExchange.final channel transport).buildSetupUdpRes 4096 p q e.address.toUInt32 from cString_snprintf _ _]
    exact congrArg some hsession

theorem answered_play (hserved : Served 2 c a.server) (hmethod : c.request.method = .play) : Answered H .play a c := by
  obtain ⟨e, session, hstream, hopen, hlook, hunicast⟩ := hserved.joined (by decide)
  obtain ⟨e', hstream', hsetup, hudp, hrtp, hrtcp⟩ := hserved.ready (le_refl 2)
  obtain rfl : e' = e := Option.some.inj (hstream'.symm.trans hstream)
  have hne : c.request.buildPlayRes 2048 e'.address.toUInt32 ≠ [] := snprintf_ne_nil (by decide) (b := 82) (by decide) _
  refine ⟨_, _, _, (RtspConnection.handleMethod_of_play (Or.inl hserved.authInfo) hmethod).trans (RtspConnection.play_of_stream hstream), rfl, ?_, ?_, ?_, fun board hboard => ?_⟩
  · refine ⟨hserved.isOpen, hserved.authInfo, by simp [Round.answers], fun _ => ⟨_, session, rfl, hopen, hlook, hunicast⟩,
      fun _ => ⟨_, rfl, ?_, hudp, hrtp, hrtcp⟩, fun _ => ⟨_, rfl, ?_⟩⟩ <;>
      simp only [RtpEndpoint.play, RtpConnection.play, hsetup, reduceIte]
  · simpa [Handshake.textsOf] using hne
  · have hcseq := length_percentD_le c.request.getCSeq.toInt32
    have haddress := length_percentU_le e'.address
    have hconst : (cstr "RTSP/1.0 200 OK\r\nCSeq: ").length = 23 ∧ (cstr "\r\nRange: npt=0.000-\r\nSession: ").length = 30 ∧
        (cstr "; timeout=60\r\n\r\n").length = 16 := ⟨rfl, rfl, rfl⟩
    have hle : (c.request.buildPlayRes 2048 e'.address.toUInt32).length ≤ 1023 := by
      refine (length_snprintf_le _ _).trans ?_
      simp only [List.length_append]
      omega
    simpa [Handshake.textsOf] using hle
  · obtain ⟨hpc, -, hsession⟩ := hboard
    have haddress : addressOf c = e'.address := by
      unfold addressOf
      rw [hstream]
      rfl
    refine ⟨{ board with buf := cString (c.request.buildPlayRes 2048 e'.address.toUInt32), pc := .done }, ?_, rfl, ?_⟩
    · unfold RtspClient.receive
      rw [hpc]
      simp [Handshake.textsOf, hne, Round.await]
    · exact (hsession rfl).trans (by rw [haddress]; rfl)

/-- A handler answers, and the answer takes the board further. -/
theorem Served.answered (r : Round) (hserved : Served r.answers c a.server)
    (hrequest : c.request = (r.exchange (addressOf c)).final channel transport) (hip : a.ip.length ≤ 15)
    (hports : a.boundPorts.isSome = true) : Answered H r a c := by
  cases r with
  | describe => exact answered_describe hserved hrequest hip
  | setup => exact answered_setup hserved hrequest hports
  | play => exact answered_play hserved (by rw [hrequest]; rfl)

end Answer

/-! ## What is left of a request -/

/-- At most the end of an empty line is left, and it is not read whole. -/
structure Clean (c : RtspConnection) (toCome : Bytes) : Prop where
  fresh : AtRequestLine c.request
  cut : Unfinished 13 c.readBuffer.readable
  bytes : c.readBuffer.readable ++ toCome = [] ∨ c.readBuffer.readable ++ toCome = [13, 10]

/-- At most what stands behind the session of the third request is left. -/
structure Behind (c : RtspConnection) (toCome : Bytes) : Prop where
  fresh : AtRequestLine c.request
  bytes : ∃ ls, ls <:+ [cstr "Range: npt=0.000-", []] ∧ c.readBuffer.readable ++ toCome = joined 13 10 ls

theorem Clean.length_le {c : RtspConnection} {toCome : Bytes} (h : Clean c toCome) : toCome.length ≤ 2 := by
  rcases h.bytes with hbytes | hbytes
  · have hlen := congrArg List.length hbytes
    simp only [List.length_append, List.length_nil] at hlen
    omega
  · have hlen := congrArg List.length hbytes
    simp only [List.length_append, List.length_cons, List.length_nil] at hlen
    omega

theorem length_joined_le {ls : List Bytes} (hls : ls <:+ [cstr "Range: npt=0.000-", []]) : (joined 13 10 ls).length ≤ 21 := by
  rcases List.suffix_cons_iff.mp hls with rfl | hls
  · decide
  · rcases List.suffix_cons_iff.mp hls with rfl | hls
    · decide
    · rw [List.suffix_nil.mp hls]
      decide

theorem Behind.length_le {c : RtspConnection} {toCome : Bytes} (h : Behind c toCome) : toCome.length ≤ 21 := by
  obtain ⟨ls, hls, hbytes⟩ := h.bytes
  have hlen := congrArg List.length hbytes
  have hjoined := length_joined_le hls
  rw [List.length_append] at hlen
  omega

section Read

variable {H : Bytes → Bytes} {a : RtspArrival} {c : RtspConnection} {toCome : Bytes}

/-- A line of one or two words is no request line. -/
theorem parseRequestLine_tail {l : Bytes} (hl : l ∈ [cstr "Range: npt=0.000-", []]) (r : RtspRequest) :
    r.parseRequestLine l = .ok (true, r) := by
  rcases List.mem_cons.mp hl with rfl | hl
  · rfl
  · obtain rfl := List.mem_singleton.mp hl
    rfl

/-- A read of what is left. -/
theorem Clean.read (h : Clean c (a.bytes ++ toCome)) (ha : Readable a c) :
    ∃ b', c.handleRead H a = .ok ([], a.server, { c with readBuffer := b' }) ∧
      b'.writerIndex ≤ c.readBuffer.writerIndex + a.bytes.length ∧ Clean { c with readBuffer := b' } toCome := by
  rcases h.bytes with hbytes | hbytes
  · exact absurd (List.append_eq_nil_iff.mp (List.append_eq_nil_iff.mp hbytes).2).1 ha.ne_nil
  · have hbytes' : c.readBuffer.readable ++ a.bytes ++ toCome = [] ++ (13 :: 10 :: []) := by simpa using hbytes
    obtain ⟨b', hread, hle, ⟨hrest, hcut⟩ | ⟨-, hrest⟩⟩ := read_trailing (H := H) h.fresh (by simp) (by simp) (by simp) (by simp)
      (parseRequestLine_tail (by simp)) hbytes' ha
    · exact ⟨b', hread, hle, h.fresh, hcut, Or.inr (by rw [hrest]; simpa using hbytes)⟩
    · exact ⟨b', hread, hle, h.fresh, by rw [(List.append_eq_nil_iff.mp hrest).1]; exact unfinished_nil, Or.inl hrest⟩

theorem Behind.read (h : Behind c (a.bytes ++ toCome)) (ha : Readable a c) :
    ∃ b', c.handleRead H a = .ok ([], a.server, { c with readBuffer := b' }) ∧
      b'.writerIndex ≤ c.readBuffer.writerIndex + a.bytes.length ∧ Behind { c with readBuffer := b' } toCome := by
  obtain ⟨ls, hls, hbytes⟩ := h.bytes
  have hplain : ∀ l ∈ [cstr "Range: npt=0.000-", []], (13 : UInt8) ∉ l ∧ l.head? ≠ some 36 := by decide
  have hlength := length_joined_le hls
  cases ls with
  | nil => exact absurd (List.append_eq_nil_iff.mp (List.append_eq_nil_iff.mp hbytes).2).1 ha.ne_nil
  | cons l ls =>
    have hl := hls.subset List.mem_cons_self
    have hhead : (joined 13 10 ls).head? ≠ some 36 :=
      head_ne_of_prefix (fun l' hl' => (hplain l' (hls.subset (List.mem_cons_of_mem l hl'))).2) List.prefix_rfl
    rw [joined_cons] at hbytes hlength
    simp only [List.length_append, List.length_cons] at hlength
    rw [← List.append_assoc] at hbytes
    obtain ⟨b', hread, hle, ⟨hrest, -⟩ | ⟨-, hrest⟩⟩ := read_trailing (H := H) h.fresh (hplain l hl).1 (hplain l hl).2 hhead (by omega)
      (parseRequestLine_tail hl) hbytes ha
    · exact ⟨b', hread, hle, h.fresh, l :: ls, hls, by rw [hrest, joined_cons]; simpa using hbytes⟩
    · exact ⟨b', hread, hle, h.fresh, ls, (List.suffix_cons l ls).trans hls, hrest⟩

/-- A read where the next request comes behind an empty line. -/
theorem together_read {text : Bytes} (hfresh : AtRequestLine c.request) (hhead : text.head? ≠ some 36) (hshort : text.length ≤ 256) (hbytes : c.readBuffer.readable ++ (a.bytes ++ toCome) = 13 :: 10 :: text)
    (ha : Readable a c) :
    ∃ b', c.handleRead H a = .ok ([], a.server, { c with readBuffer := b' }) ∧
      b'.writerIndex ≤ c.readBuffer.writerIndex + a.bytes.length ∧
      ((b'.readable = c.readBuffer.readable ++ a.bytes ∧ Unfinished 13 b'.readable) ∨
        (c.readBuffer.readable ++ a.bytes = 13 :: 10 :: b'.readable ∧ b'.readable ++ toCome = text)) := by
  have hbytes' : c.readBuffer.readable ++ a.bytes ++ toCome = [] ++ (13 :: 10 :: text) := by simpa using hbytes
  obtain ⟨b', hread, hle, ⟨hrest, hcut'⟩ | ⟨hsplit, hrest⟩⟩ := read_trailing (H := H) hfresh (by simp) (by simp) hhead
    (by rw [List.length_nil]; omega) (parseRequestLine_tail (by simp)) hbytes' ha
  · exact ⟨b', hread, hle, Or.inl ⟨hrest, hcut'⟩⟩
  · exact ⟨b', hread, hle, Or.inr ⟨by simpa using hsplit, hrest⟩⟩

end Read

end Handshake

end AuthVideo
