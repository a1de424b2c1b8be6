import AuthVideo.Lemmas.RtpConnection
import AuthVideo.Lemmas.RtspConnection

/-!
# Theorems 68 to 71: what a client gets out of the server

The requests that matter begin with `HandleAuthentication`, the rest of the server trusts what they left behind.
-/

namespace AuthVideo.Xop

/-! ## The digest in front of the rest -/

/-- What goes to a client that has not shown the digest: the list of the methods, and the challenges. -/
def RtspEvent.Harmless (credentials : Credentials) : RtspEvent → Prop
  | .sent text => (∃ r, text = RtspRequest.buildOptionRes 2048 r) ∨
      ∃ r nonce, text = RtspRequest.buildUnauthorizedRes 4096 credentials.realm nonce r
  | .challenged _ => True
  | .authenticated .. | .joined _ => False

/-- What a connection has done, step after step. -/
def eventsOf (log : List (RtspArrival × List RtspEvent)) : List RtspEvent := (log.map Prod.snd).flatten

/-- The nonce of the last challenge. -/
def lastNonce (events : List RtspEvent) : Bytes :=
  events.foldl (fun nonce event => match event with
    | .challenged nonce => nonce
    | _ => nonce) []

/-- The events of a client that showed the digest of the last nonce once, after nothing but harmless events. -/
def Opened (md5HashHex : Bytes → Bytes) (credentials : Credentials) (events : List RtspEvent) : Prop :=
  ∃ before cmd url after, events = before ++ .authenticated (lastNonce before) cmd url
      (credentials.getResponse md5HashHex (lastNonce before) cmd url) :: after ∧
    lastNonce before ≠ [] ∧ (∀ event ∈ before, event.Harmless credentials) ∧ ∀ event ∈ after, event.Plain

/-- The gate: closed, with the last nonce in memory and nothing behind it, or opened by the digest. -/
structure Gate (md5HashHex : Bytes → Bytes) (credentials : Credentials) (log : List (RtspArrival × List RtspEvent)) (c : RtspConnection) :
    Prop where
  authInfo : c.authInfo = some credentials
  closed : c.hasAuth = false → c.rtpConn = none ∧ c.sessionId = 0 ∧ c.nonce = lastNonce (eventsOf log) ∧
    ∀ event ∈ eventsOf log, event.Harmless credentials
  opened : c.hasAuth = true → Opened md5HashHex credentials (eventsOf log)

theorem eventsOf_append (log : List (RtspArrival × List RtspEvent)) (a : RtspArrival) (events : List RtspEvent) :
    eventsOf (log ++ [(a, events)]) = eventsOf log ++ events := by
  simp [eventsOf]

/-- Answers leave the nonce as it is. -/
theorem lastNonce_append_sent (before : List RtspEvent) (text : Bytes) : lastNonce (before ++ [.sent text]) = lastNonce before := by
  simp [lastNonce]

/-- A challenge has the next nonce. -/
theorem lastNonce_append_challenged (before : List RtspEvent) (nonce text : Bytes) :
    lastNonce (before ++ [.challenged nonce, .sent text]) = nonce := by
  simp [lastNonce]

section Gate

variable {md5HashHex : Bytes → Bytes} {credentials : Credentials} {a : RtspArrival} {c c' : RtspConnection}
  {events : List RtspEvent} {server : RtspServer}

namespace RtspConnection

/-- A handler behind the authentication, at a closed gate: a challenge, or the digest of the last nonce and then the handler. -/
theorem authenticated_closed {handler : RtspArrival → RtspConnection → Handled}
    (hkeeps : ∀ {c c' events server}, handler a c = .ok (events, server, c') → Keeps c c' events)
    (hauth : c.authInfo = some credentials) (hclosed : c.hasAuth = false)
    (h : c.authenticated md5HashHex handler a = .ok (events, server, c')) :
    (events = [.challenged a.nonce, .sent (c.request.buildUnauthorizedRes 4096 credentials.realm a.nonce)] ∧
        c' = { c with nonce := a.nonce }) ∨
      ∃ cmd url more, events = .authenticated c.nonce cmd url (credentials.getResponse md5HashHex c.nonce cmd url) :: more ∧
        c.nonce ≠ [] ∧ c'.authInfo = some credentials ∧ c'.hasAuth = true ∧ ∀ event ∈ more, event.Plain := by
  have hcases : (c.handleAuthentication md5HashHex a.nonce = (false, [.challenged a.nonce,
        .sent (c.request.buildUnauthorizedRes 4096 credentials.realm a.nonce)], { c with nonce := a.nonce })) ∨
      ∃ cmd url, c.handleAuthentication md5HashHex a.nonce = (true, [.authenticated c.nonce cmd url
        (credentials.getResponse md5HashHex c.nonce cmd url)], { c with nonce := [], hasAuth := true }) ∧ c.nonce ≠ [] := by
    unfold handleAuthentication
    split
    · rename_i credentials' hauth' _
      rw [hauth] at hauth'
      cases hauth'
      dsimp only
      split
      · rename_i hdigest
        exact Or.inr ⟨_, _, by rw [hdigest.2], List.ne_nil_of_length_pos hdigest.1⟩
      · exact Or.inl rfl
    · rename_i hnot
      exact absurd hclosed (by simpa using hnot credentials hauth)
  unfold authenticated at h
  rcases hcases with hpass | ⟨cmd, url, hpass, hne⟩
  · rw [hpass] at h
    cases h
    exact Or.inl ⟨rfl, rfl⟩
  · rw [hpass] at h
    rcases bind_eq_ok.mp h with ⟨⟨more, server', c₁⟩, hhandler, h⟩
    cases h
    have hkept := hkeeps hhandler
    exact Or.inr ⟨cmd, url, more, rfl, hne, hkept.authInfo.trans hauth, hkept.hasAuth, hkept.plain⟩

/-- A handler behind the authentication, at an open gate. -/
theorem authenticated_open {handler : RtspArrival → RtspConnection → Handled}
    (hkeeps : ∀ {c c' events server}, handler a c = .ok (events, server, c') → Keeps c c' events)
    (hopen : c.authInfo = none ∨ c.hasAuth = true) (h : c.authenticated md5HashHex handler a = .ok (events, server, c')) :
    Keeps c c' events := by
  rw [authenticated_of_open hopen] at h
  exact hkeeps h

/-- A method at an open gate. -/
theorem handleMethod_open (hopen : c.authInfo = none ∨ c.hasAuth = true)
    (h : c.handleMethod md5HashHex a = .ok (events, server, c')) : Keeps c c' events := by
  unfold handleMethod at h
  split at h
  · cases h
    exact .answer c _
  · exact authenticated_open keeps_describe hopen h
  · exact authenticated_open keeps_setup hopen h
  · exact authenticated_open keeps_play hopen h
  · exact keeps_teardown h
  · exact keeps_getParamter h
  · cases h
    exact .refl c
  · cases h
    exact .refl c

/-- A method at a closed gate with nothing behind it. -/
theorem handleMethod_closed (hauth : c.authInfo = some credentials) (hclosed : c.hasAuth = false) (hstream : c.rtpConn = none)
    (h : c.handleMethod md5HashHex a = .ok (events, server, c')) :
    (c' = c ∧ (events = [] ∨ events = [.sent (c.request.buildOptionRes 2048)])) ∨
      (events = [.challenged a.nonce, .sent (c.request.buildUnauthorizedRes 4096 credentials.realm a.nonce)] ∧
        c' = { c with nonce := a.nonce }) ∨
      ∃ cmd url more, events = .authenticated c.nonce cmd url (credentials.getResponse md5HashHex c.nonce cmd url) :: more ∧
        c.nonce ≠ [] ∧ c'.authInfo = some credentials ∧ c'.hasAuth = true ∧ ∀ event ∈ more, event.Plain := by
  unfold handleMethod at h
  split at h
  · cases h
    exact Or.inl ⟨rfl, Or.inr rfl⟩
  · exact Or.inr (authenticated_closed keeps_describe hauth hclosed h)
  · exact Or.inr (authenticated_closed keeps_setup hauth hclosed h)
  · exact Or.inr (authenticated_closed keeps_play hauth hclosed h)
  · unfold handleCmdTeardown at h
    rw [hstream] at h
    cases h
    exact Or.inl ⟨rfl, Or.inl rfl⟩
  · unfold handleCmdGetParamter at h
    rw [hstream] at h
    cases h
    exact Or.inl ⟨rfl, Or.inl rfl⟩
  · cases h
    exact Or.inl ⟨rfl, Or.inl rfl⟩
  · cases h
    exact Or.inl ⟨rfl, Or.inl rfl⟩

end RtspConnection

/-- More plain events behind the digest. -/
theorem Opened.append {before : List RtspEvent} (h : Opened md5HashHex credentials before) (hplain : ∀ event ∈ events, event.Plain) :
    Opened md5HashHex credentials (before ++ events) := by
  obtain ⟨early, cmd, url, after, rfl, hnonce, hharmless, hafter⟩ := h
  refine ⟨early, cmd, url, after ++ events, by simp, hnonce, hharmless, fun event hmem => ?_⟩
  rcases List.mem_append.mp hmem with hmem | hmem
  · exact hafter event hmem
  · exact hplain event hmem

theorem gate_step (log : List (RtspArrival × List RtspEvent)) (c : RtspConnection) (a : RtspArrival) (events : List RtspEvent)
    (c' : RtspConnection) (h : Gate md5HashHex credentials log c) (hstep : RtspConnection.step md5HashHex a c = .ok (events, c')) :
    Gate md5HashHex credentials (log ++ [(a, events)]) c' := by
  obtain ⟨hauth, hclosed, hopened⟩ := h
  rcases RtspConnection.step_cases hstep with ⟨rfl, hsame⟩ | ⟨c₀, server, c₁, hbefore, hmethod, hafter⟩
  · refine ⟨hsame.authInfo.trans hauth, fun hno => ?_, fun hyes => ?_⟩
    · rw [eventsOf_append, List.append_nil, hsame.rtpConn, hsame.sessionId, hsame.nonce]
      exact hclosed (hsame.hasAuth ▸ hno)
    · rw [eventsOf_append, List.append_nil]
      exact hopened (hsame.hasAuth ▸ hyes)
  · have hauth₀ := hbefore.authInfo.trans hauth
    rcases hhas : c.hasAuth with _ | _
    · obtain ⟨hstream, hsession, hnonce, hharmless⟩ := hclosed hhas
      have hclosed₀ := hbefore.hasAuth.trans hhas
      have hnonce₀ := hbefore.nonce.trans hnonce
      rcases RtspConnection.handleMethod_closed hauth₀ hclosed₀ (hbefore.rtpConn.trans hstream) hmethod with
        ⟨rfl, hevents⟩ | ⟨rfl, rfl⟩ | ⟨cmd, url, more, rfl, hne, hauth₁, hhas₁, hplain⟩
      · refine ⟨hafter.authInfo.trans hauth₀, fun _ => ?_, fun hyes => ?_⟩
        · refine ⟨hafter.rtpConn.trans (hbefore.rtpConn.trans hstream), hafter.sessionId.trans (hbefore.sessionId.trans hsession), ?_, ?_⟩
          · rw [hafter.nonce, hnonce₀, eventsOf_append]
            rcases hevents with rfl | rfl
            · rw [List.append_nil]
            · rw [lastNonce_append_sent]
          · intro event hmem
            rw [eventsOf_append] at hmem
            rcases List.mem_append.mp hmem with hmem | hmem
            · exact hharmless event hmem
            · rcases hevents with rfl | rfl
              · cases hmem
              · rw [List.mem_singleton.mp hmem]
                exact Or.inl ⟨_, rfl⟩
        · rw [hafter.hasAuth, hclosed₀] at hyes
          cases hyes
      · refine ⟨hafter.authInfo.trans hauth₀, fun _ => ?_, fun hyes => ?_⟩
        · refine ⟨hafter.rtpConn.trans (hbefore.rtpConn.trans hstream), hafter.sessionId.trans (hbefore.sessionId.trans hsession), ?_, ?_⟩
          · rw [hafter.nonce, eventsOf_append, lastNonce_append_challenged]
          · intro event hmem
            rw [eventsOf_append] at hmem
            rcases List.mem_append.mp hmem with hmem | hmem
            · exact hharmless event hmem
            · rcases List.mem_pair.mp hmem with rfl | rfl
              · trivial
              · exact Or.inr ⟨_, _, rfl⟩
        · rw [hafter.hasAuth] at hyes
          exact absurd (hclosed₀.symm.trans hyes) (by simp)
      · refine ⟨hafter.authInfo.trans hauth₁, fun hno => ?_, fun _ => ?_⟩
        · rw [hafter.hasAuth, hhas₁] at hno
          cases hno
        · rw [eventsOf_append]
          rw [hnonce₀] at hne
          exact ⟨eventsOf log, cmd, url, more, by rw [hnonce₀], hne, hharmless, hplain⟩
    · have hkept := RtspConnection.handleMethod_open (Or.inr (hbefore.hasAuth.trans hhas)) hmethod
      refine ⟨hafter.authInfo.trans (hkept.authInfo.trans hauth₀), fun hno => ?_, fun _ => ?_⟩
      · rw [hafter.hasAuth, hkept.hasAuth, hbefore.hasAuth, hhas] at hno
        cases hno
      · rw [eventsOf_append]
        exact (hopened hhas).append hkept.plain

end Gate

/-- Theorem 68 (the digest comes first). Where the server has credentials, a client gets nothing but the list of the methods and
challenges, and has neither a stream nor a session, until one of its requests has the digest of the nonce in the last challenge;
from then on it is not asked again, and no nonce opens the connection twice. It may send what it likes, but a run ends with the
first request whose words are too long for the arrays of the parser. -/
theorem digest_comes_first (md5HashHex : Bytes → Bytes) (server : RtspServer) (credentials : Credentials)
    (hcredentials : server.auth = some credentials) (socket scheduler : ℕ) (request : RtspRequest) (arrivals : List RtspArrival) :
    ((∀ event ∈ eventsOf (RtspConnection.run md5HashHex server socket scheduler request arrivals).1, event.Harmless credentials) ∧
        ∀ c, (RtspConnection.run md5HashHex server socket scheduler request arrivals).2 = .ok c → c.rtpConn = none ∧ c.sessionId = 0) ∨
      Opened md5HashHex credentials (eventsOf (RtspConnection.run md5HashHex server socket scheduler request arrivals).1) := by
  have hstart : Gate md5HashHex credentials [] (.new server socket scheduler request) := by
    refine ⟨hcredentials, fun _ => ⟨rfl, rfl, rfl, fun event h => (by cases h)⟩, fun hyes => ?_⟩
    simp [RtspConnection.new, hcredentials] at hyes
  have hlog := Machine.run_log (Gate md5HashHex credentials) gate_step hstart arrivals
  unfold RtspConnection.run
  rcases hrun : Machine.run (RtspConnection.step md5HashHex) arrivals (.new server socket scheduler request) with ⟨log, e | c⟩
  · rw [hrun] at hlog
    obtain ⟨a, c, hgate, -⟩ := hlog
    rcases hhas : c.hasAuth with _ | _
    · exact Or.inl ⟨(hgate.closed hhas).2.2.2, fun c' hc => (by cases hc)⟩
    · exact Or.inr (hgate.opened hhas)
  · rw [hrun] at hlog
    rcases hhas : c.hasAuth with _ | _
    · obtain ⟨hstream, hsession, -, hharmless⟩ := hlog.closed hhas
      refine Or.inl ⟨hharmless, fun c' hc => ?_⟩
      cases hc
      exact ⟨hstream, hsession⟩
    · exact Or.inr (hlog.opened hhas)

/-- A client that asks for a description and is challenged. -/
theorem digest_comes_first_challenged :
    let credentials : Credentials := ⟨cstr "-_-", cstr "admin", cstr "12345"⟩
    let a : RtspArrival := ⟨cstr "DESCRIBE rtsp://10.25.9.28:5543/live RTSP/1.0\r\nCSeq: 1\r\nAccept: application/sdp\r\n\r\n", .new [] none,
      cstr "5f", 0, fun _ => (0, 0), none, false, 0, []⟩
    let outcome := RtspConnection.run id (.new [] (some credentials)) 7 0 (.new .none 0 .rtpOverUdp) [a]
    eventsOf outcome.1 = [.challenged (cstr "5f"),
        .sent (cstr "RTSP/1.0 401 Unauthorized\r\nCSeq: 1\r\nWWW-Authenticate: Digest realm=\"-_-\", nonce=\"5f\"\r\n\r\n")] ∧
      ((∀ event ∈ eventsOf outcome.1, event.Harmless credentials) ∧
          (∀ c, outcome.2 = .ok c → c.rtpConn = none ∧ c.sessionId = 0) ∨
        Opened id credentials (eventsOf outcome.1)) := by
  intro credentials a outcome
  refine ⟨by decide +kernel, ?_⟩
  exact digest_comes_first id (.new [] (some credentials)) credentials (by decide) 7 0 (.new .none 0 .rtpOverUdp) [a]

/-! ## Pointers -/

/-- Theorem 69 (no null pointer). `HandleCmdSetup` uses the stream of a connection without a test and `LookMediaSession` takes
whatever number the connection has, but no client can bring a connection to a session without a stream, whatever sessions come
and go: the number of a connection that has not asked for a description is 0, which no session has before the counter goes round. -/
theorem never_nullPointer (md5HashHex : Bytes → Bytes) (server : RtspServer) (socket scheduler : ℕ) (request : RtspRequest)
    (arrivals : List RtspArrival) :
    (RtspConnection.run md5HashHex server socket scheduler request arrivals).2 ≠ .error .nullPointer := by
  have hstart : (RtspConnection.new server socket scheduler request).sessionId ≠ 0 →
      (RtspConnection.new server socket scheduler request).rtpConn.isSome := fun h => absurd rfl h
  intro herror
  obtain ⟨earlier, a, later, c, -, hrun, hstep⟩ := Machine.of_run_error herror
  have hsession := Machine.run_invariant (fun c : RtspConnection => c.sessionId ≠ 0 → c.rtpConn.isSome)
    (fun _ _ _ _ _ h hstep => (RtspConnection.keepsStream_step hstep).session h) hstart hrun
  obtain ⟨c₀, hsame, hmethod⟩ := RtspConnection.step_nullPointer hstep
  exact RtspConnection.handleMethod_ne_nullPointer (hsame.keepsStream.session hsession) hmethod

/-! ## Closed streams -/

/-- Theorem 70 (torn down is torn down). Once `TEARDOWN` has closed the stream of a connection, no request opens it again, and no
packet is posted to it, while `SETUP` and `PLAY` of a client that may ask are answered as before, `PLAY` with 200. -/
theorem stays_torn_down (md5HashHex : Bytes → Bytes) (arrivals : List RtspArrival) (c c' : RtspConnection) (e : RtpEndpoint)
    (hstream : c.rtpConn = some e) (hclosed : e.isClosed = true)
    (hrun : (Machine.run (RtspConnection.step md5HashHex) arrivals c).2 = .ok c') :
    ∃ e', c'.rtpConn = some e' ∧ e'.isClosed = true ∧
      (∀ (s s' : Streams) (client thread : ℕ) (taken : Bool) (event : StreamEvent), s.clients client = e'.toRtpConnection →
        Streams.step (.post thread taken) s = .ok (event, s') → ∀ channel pkt, event ≠ .posted client channel pkt) ∧
      (c'.authInfo = none ∨ c'.hasAuth = true → ∀ (a : RtspArrival) (request : RtspRequest) (readBuffer : BufferReader),
        (request.method = .setup → ∃ text c'', { c' with request, readBuffer }.handleMethod md5HashHex a =
          .ok ([.sent text], a.server, c'')) ∧
        (request.method = .play → ∃ c'', { c' with request, readBuffer }.handleMethod md5HashHex a =
          .ok ([.sent (request.buildPlayRes 2048 e'.address.toUInt32)], a.server, c''))) := by
  obtain ⟨e', hstream', hclosed'⟩ : ∃ e', c'.rtpConn = some e' ∧ e'.isClosed = true := by
    refine Machine.run_invariant (fun c : RtspConnection => ∃ e, c.rtpConn = some e ∧ e.isClosed = true)
      (fun a _ c₁ events c₂ h hstep => ?_) ⟨e, hstream, hclosed⟩ hrun
    obtain ⟨e₁, hstream₁, hclosed₁⟩ := h
    obtain ⟨e₂, hstream₂, hkept⟩ := (RtspConnection.keepsStream_step hstep).stream e₁ hstream₁
    exact ⟨e₂, hstream₂, hkept hclosed₁⟩
  refine ⟨e', hstream', hclosed', fun s s' client thread taken event hclient hstep => ?_, fun hopen a request readBuffer => ⟨?_, ?_⟩⟩
  · exact Streams.post_of_closed (hclient ▸ hclosed') hstep
  · intro hmethod
    rw [RtspConnection.handleMethod_of_setup (c := { c' with request, readBuffer }) hopen hmethod]
    exact RtspConnection.setup_of_stream hstream'
  · intro hmethod
    rw [RtspConnection.handleMethod_of_play (c := { c' with request, readBuffer }) hopen hmethod]
    exact ⟨_, RtspConnection.play_of_stream hstream'⟩

/-- A `PLAY` behind a `TEARDOWN` is answered, and the stream stays closed. -/
theorem stays_torn_down_play :
    let c := { RtspConnection.new (.new [] none) 7 0 (.new .none 0 .rtpOverUdp) with
      rtpConn := some (RtpEndpoint.new 0 0 fun _ => (0, 0)).teardown }
    let a : RtspArrival := ⟨cstr "PLAY rtsp://10.25.9.28:5543/live RTSP/1.0\r\nCSeq: 5\r\nSession: 0\r\n\r\n", .new [] none, [], 0,
      fun _ => (0, 0), none, false, 0, []⟩
    let outcome := Machine.run (RtspConnection.step id) [a] c
    eventsOf outcome.1 = [.sent (cstr "RTSP/1.0 200 OK\r\nCSeq: 5\r\nRange: npt=0.000-\r\nSession: 0; timeout=60\r\n\r\n")] ∧
      ∃ c' e', outcome.2 = .ok c' ∧ c'.rtpConn = some e' ∧ e'.isClosed = true := by
  intro c a outcome
  refine ⟨by decide +kernel, ?_⟩
  have hok : outcome.2.isOk = true := by decide +kernel
  rcases hrun : outcome.2 with f | c'
  · rw [hrun] at hok
    cases hok
  · obtain ⟨e', hstream, hclosed, -⟩ := stays_torn_down id [a] c c' (RtpEndpoint.new 0 0 fun _ => (0, 0)).teardown rfl
      (isClosed_teardown _) hrun
    exact ⟨c', e', rfl, hstream, hclosed⟩

/-! ## Interleaved packets -/

/-- The first bytes that a reader holds are an interleaved packet with more behind it. -/
def PacketAndMore (readable : Bytes) : Prop :=
  ∃ channel high low rest, readable = 36 :: channel :: high :: low :: rest ∧ high.toNat * 256 + low.toNat < rest.length

/-- More bytes do not make it another packet. -/
theorem PacketAndMore.append {readable : Bytes} (h : PacketAndMore readable) (bytes : Bytes) : PacketAndMore (readable ++ bytes) := by
  obtain ⟨channel, high, low, rest, rfl, hrest⟩ := h
  refine ⟨channel, high, low, rest ++ bytes, by simp, ?_⟩
  rw [List.length_append]
  omega

/-- `HandleRtcp` leaves a packet with more behind it where it is. -/
theorem handleRtcp_of_more {b : BufferReader} (h : PacketAndMore b.readable) : RtspConnection.handleRtcp b = b := by
  obtain ⟨channel, high, low, rest, hreadable, hrest⟩ := h
  have hlength := b.length_readable
  rw [hreadable] at hlength
  simp only [List.length_cons] at hlength
  unfold RtspConnection.handleRtcp
  rw [hreadable]
  split
  · rename_i heq
    cases heq
    exact if_neg (by omega)
  · rfl

/-- What an arrival does behind such a packet. -/
theorem step_of_more {md5HashHex : Bytes → Bytes} {a : RtspArrival} {c : RtspConnection} (hopen : c.isClosed = false)
    (h : PacketAndMore c.readBuffer.readable) (hne : a.bytes ≠ [])
    (hfew : c.readBuffer.readable.length + a.bytes.length ≤ RtspConnection.maxRtspMessageSize)
    (hroom : c.readBuffer.writerIndex + maxBytesPerRead ≤ maxBufferSize) :
    ∃ c', RtspConnection.step md5HashHex a c = .ok ([], c') ∧ c'.isClosed = false ∧
      c'.readBuffer.readable = c.readBuffer.readable ++ a.bytes ∧
      c'.readBuffer.writerIndex = c.readBuffer.writerIndex + a.bytes.length := by
  obtain ⟨b, hread⟩ := BufferReader.exists_read hne hroom
  have htake : a.bytes.take maxBytesPerRead = a.bytes := List.take_of_length_le (by
    simp only [RtspConnection.maxRtspMessageSize, maxBytesPerRead] at *
    omega)
  have hreadable := BufferReader.readable_read hread
  have hwriter := BufferReader.writerIndex_read hread
  rw [htake] at hreadable hwriter
  have hmore : PacketAndMore b.readable := hreadable ▸ h.append a.bytes
  have hlength : b.readableBytes = c.readBuffer.readable.length + a.bytes.length := by
    rw [← b.length_readable, hreadable, List.length_append]
  have hhead : b.readable.head? = some 36 := by
    obtain ⟨channel, high, low, rest, heq, -⟩ := hmore
    rw [heq]
    rfl
  have hpos := List.length_pos_iff.mpr hne
  refine ⟨{ c with readBuffer := b, request := { c.request with method := .rtcp } }, ?_, hopen, hreadable, hwriter⟩
  simp [RtspConnection.step, RtspConnection.handleRead, RtspConnection.onRead, RtspConnection.handleRtspRequest,
    RtspRequest.parseRequest, hopen, hread, hhead, handleRtcp_of_more hmore, hlength, show ¬ (_ : ℕ) < _ from Nat.not_lt.mpr hfew,
    show a.bytes.length ≠ 0 by omega, bind, Except.bind, pure, Except.pure]

/-- Theorem 71 (two packets in one read). `HandleRtcp` compares the wrong way round: it takes a packet off only where nothing follows it.
Once a read has given the reader of a client that receives its stream over TCP a report together with a byte behind it, whatever
else the client sends is neither parsed nor answered, its `TEARDOWN` included, as long as the reader holds no more than 2048 bytes
and has room for the next read. -/
theorem deaf_behind_packet (md5HashHex : Bytes → Bytes) (arrivals : List RtspArrival) (c : RtspConnection) (hopen : c.isClosed = false)
    (hmore : PacketAndMore c.readBuffer.readable) (hne : ∀ a ∈ arrivals, a.bytes ≠ [])
    (hfew : c.readBuffer.readable.length + (arrivals.map RtspArrival.bytes).flatten.length ≤ RtspConnection.maxRtspMessageSize)
    (hroom : c.readBuffer.writerIndex + (arrivals.map RtspArrival.bytes).flatten.length + maxBytesPerRead ≤ maxBufferSize) :
    ∃ c', (Machine.run (RtspConnection.step md5HashHex) arrivals c).2 = .ok c' ∧ c'.isClosed = false ∧
      c'.readBuffer.readable = c.readBuffer.readable ++ (arrivals.map RtspArrival.bytes).flatten ∧
      ∀ entry ∈ (Machine.run (RtspConnection.step md5HashHex) arrivals c).1, entry.2 = [] := by
  induction arrivals generalizing c with
  | nil => exact ⟨c, rfl, hopen, by simp, fun entry h => (by cases h)⟩
  | cons a arrivals ih =>
    rw [List.forall_mem_cons] at hne
    rw [List.map_cons, List.flatten_cons, List.length_append] at hfew hroom
    obtain ⟨c₁, hstep, hopen₁, hreadable₁, hwriter₁⟩ := step_of_more hopen hmore hne.1 (by omega) (by omega)
    rw [Machine.run_cons_ok hstep]
    obtain ⟨c', hrun, hopen', hreadable', hsilent⟩ := ih c₁ hopen₁ (hreadable₁ ▸ hmore.append a.bytes) hne.2
      (by rw [hreadable₁, List.length_append]; omega) (by rw [hwriter₁]; omega)
    refine ⟨c', hrun, hopen', ?_, fun entry hmem => ?_⟩
    · rw [hreadable', hreadable₁, List.map_cons, List.flatten_cons, List.append_assoc]
    · rcases List.mem_cons.mp hmem with rfl | hmem
      · rfl
      · exact hsilent entry hmem

/-- A `TEARDOWN` behind a report and one byte more. -/
theorem deaf_behind_packet_teardown :
    let c := { RtspConnection.new (.new [] none) 7 0 (.new .none 0 .rtpOverTcp) with
      readBuffer := ⟨[36, 1, 0, 1, 200, 36], 0, 6, by decide, by decide⟩ }
    let a : RtspArrival := ⟨cstr "TEARDOWN rtsp://10.25.9.28:5543/live RTSP/1.0\r\nCSeq: 4\r\n\r\n", .new [] none, [], 0, fun _ => (0, 0), none,
      false, 0, []⟩
    ∃ c', (Machine.run (RtspConnection.step id) [a] c).2 = .ok c' ∧ c'.isClosed = false ∧
      c'.readBuffer.readable = c.readBuffer.readable ++ ([a].map RtspArrival.bytes).flatten ∧
      ∀ entry ∈ (Machine.run (RtspConnection.step id) [a] c).1, entry.2 = [] := by
  intro c a
  refine deaf_behind_packet id [a] c rfl ⟨1, 0, 1, [200, 36], rfl, by decide⟩ ?_ (by decide) (by decide)
  simp [a, cstr]

end AuthVideo.Xop
