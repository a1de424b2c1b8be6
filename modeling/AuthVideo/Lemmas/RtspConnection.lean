import AuthVideo.Lemmas.BufferReader
import AuthVideo.Lemmas.Python
import AuthVideo.Xop.RtspConnection

/-!
# What one arrival does to an RTSP connection

A step either handles no request, and then nothing but the reader and the parser change, or it is the handler of one method
between two such changes.
-/

namespace AuthVideo.Xop

/-- A bind that ends in a fault. -/
theorem bind_eq_error {ε α β : Type} {x : Except ε α} {f : α → Except ε β} {e : ε} :
    x >>= f = .error e ↔ x = .error e ∨ ∃ a, x = .ok a ∧ f a = .error e := by
  cases x with
  | error e' => simp [bind, Except.bind]
  | ok a => simp [bind, Except.bind]

/-! ## The parser -/

namespace RtspRequest

/-- A url leads to no null pointer. -/
theorem parseUrl_ne_nullPointer (method : Method) (url version : Bytes) (r : RtspRequest) :
    r.parseUrl method url version ≠ .error .nullPointer := by
  unfold parseUrl
  dsimp only
  split
  · split
    · split
      · simp
      · split
        · split <;> simp
        · simp
    · simp
  · simp

/-- A request line does not either. -/
theorem parseRequestLine_ne_nullPointer (message : Bytes) (r : RtspRequest) :
    r.parseRequestLine message ≠ .error .nullPointer := by
  unfold parseRequestLine
  dsimp only
  split
  · split
    · split
      · exact parseUrl_ne_nullPointer _ _ _ _
      · simp
    · simp
  · simp

/-- An authorization does not. -/
theorem parseAuthorization_ne_nullPointer (message : Bytes) : parseAuthorization message ≠ .error .nullPointer := by
  unfold parseAuthorization substr
  split
  · split <;> simp [bind, Except.bind, pure, Except.pure]
  · simp [pure, Except.pure]

/-- Header lines do not. -/
theorem parseHeadersLine_ne_nullPointer (message : Bytes) (r : RtspRequest) :
    r.parseHeadersLine message ≠ .error .nullPointer := by
  have hauthorization := parseAuthorization_ne_nullPointer message
  unfold parseHeadersLine
  rcases r.parseCSeq message with ⟨found, r'⟩
  dsimp only
  split
  · simp [pure, Except.pure]
  · have hstore : r'.storeAuthorization message ≠ .error .nullPointer := by
      unfold storeAuthorization
      split <;> simp [bind_eq_error, hauthorization, pure, Except.pure]
    simp [bind_eq_error, hstore, pure, Except.pure]

/-- No text that comes leads to a null pointer in the parser. -/
theorem parseRequest_ne_nullPointer (b : BufferReader) (r : RtspRequest) : r.parseRequest b ≠ .error .nullPointer := by
  have hheaders : ∀ ret (b : BufferReader) (r : RtspRequest), r.headersTurn ret b ≠ .error .nullPointer := by
    intro ret b r
    unfold headersTurn
    split
    · simp [bind_eq_error, parseHeadersLine_ne_nullPointer, pure, Except.pure]
    · simp [pure, Except.pure]
  unfold parseRequest
  split
  · simp [pure, Except.pure]
  · split
    · rw [ne_eq, bind_eq_error, not_or]
      refine ⟨?_, ?_⟩
      · unfold firstTurn
        split
        · simp [bind_eq_error, parseRequestLine_ne_nullPointer, pure, Except.pure]
        · simp [pure, Except.pure]
      · rintro ⟨⟨ret, r', b'⟩, -, h⟩
        dsimp only at h
        split at h
        · exact hheaders ret b' r' h
        · simp [pure, Except.pure] at h
    · exact hheaders _ _ _
    · simp [pure, Except.pure]

end RtspRequest

/-! ## The connection -/

/-- Two states of a connection that differ in the reader and the parser only. -/
structure SameStanding (c c' : RtspConnection) : Prop where
  socket : c'.socket = c.socket
  authInfo : c'.authInfo = c.authInfo
  hasAuth : c'.hasAuth = c.hasAuth
  nonce : c'.nonce = c.nonce
  sessionId : c'.sessionId = c.sessionId
  rtpConn : c'.rtpConn = c.rtpConn

theorem SameStanding.refl (c : RtspConnection) : SameStanding c c := ⟨rfl, rfl, rfl, rfl, rfl, rfl⟩

theorem SameStanding.trans {c c' c'' : RtspConnection} (h : SameStanding c c') (h' : SameStanding c' c'') : SameStanding c c'' :=
  ⟨h'.socket.trans h.socket, h'.authInfo.trans h.authInfo, h'.hasAuth.trans h.hasAuth, h'.nonce.trans h.nonce,
    h'.sessionId.trans h.sessionId, h'.rtpConn.trans h.rtpConn⟩

/-- The parser and the reader may change. -/
theorem SameStanding.parsed (c : RtspConnection) (request : RtspRequest) (readBuffer : BufferReader) :
    SameStanding c { c with request, readBuffer } := ⟨rfl, rfl, rfl, rfl, rfl, rfl⟩

namespace RtspConnection

variable {md5HashHex : Bytes → Bytes} {a : RtspArrival} {c c' : RtspConnection} {events : List RtspEvent}

/-- What a request of an arrival comes to. -/
theorem handleRtspRequest_cases {ret : Bool} {server : RtspServer}
    (h : c.handleRtspRequest md5HashHex a = .ok (ret, events, server, c')) :
    (events = [] ∧ SameStanding c c') ∨
      ∃ c₀ c₁, SameStanding c c₀ ∧ c₀.handleMethod md5HashHex a = .ok (events, server, c₁) ∧ SameStanding c₁ c' := by
  unfold handleRtspRequest at h
  rcases bind_eq_ok.mp h with ⟨⟨ok, request, readBuffer⟩, hparse, h⟩
  dsimp only at h
  split at h
  · cases h
    exact Or.inl ⟨rfl, rfl, rfl, rfl, rfl, rfl, rfl⟩
  · split at h
    · cases h
      exact Or.inl ⟨rfl, rfl, rfl, rfl, rfl, rfl, rfl⟩
    · split at h
      · cases h
        exact Or.inl ⟨rfl, rfl, rfl, rfl, rfl, rfl, rfl⟩
      · rcases bind_eq_ok.mp h with ⟨⟨events', server', c₁⟩, hmethod, h⟩
        cases h
        exact Or.inr ⟨_, c₁, .parsed c request readBuffer, hmethod, .parsed c₁ _ _⟩

/-- What a step comes to. -/
theorem step_cases (h : step md5HashHex a c = .ok (events, c')) :
    (events = [] ∧ SameStanding c c') ∨
      ∃ c₀ server c₁, SameStanding c c₀ ∧ c₀.handleMethod md5HashHex a = .ok (events, server, c₁) ∧ SameStanding c₁ c' := by
  unfold step handleRead at h
  rcases bind_eq_ok.mp h with ⟨⟨events', server, c₂⟩, hread, h⟩
  cases h
  split at hread
  · cases hread
    exact Or.inl ⟨rfl, SameStanding.refl _⟩
  · split at hread
    · cases hread
      exact Or.inl ⟨rfl, rfl, rfl, rfl, rfl, rfl, rfl⟩
    · rename_i readBuffer hbytes
      rcases bind_eq_ok.mp hread with ⟨⟨ret, events'', server', c₃⟩, honRead, hread⟩
      have hclose : events'' = events ∧ SameStanding c₃ c' := by
        dsimp only at hread
        split at hread <;> cases hread <;> exact ⟨rfl, rfl, rfl, rfl, rfl, rfl, rfl⟩
      obtain ⟨rfl, hclose⟩ := hclose
      unfold onRead at honRead
      split at honRead
      · cases honRead
        exact Or.inl ⟨rfl, hclose.socket, hclose.authInfo, hclose.hasAuth, hclose.nonce, hclose.sessionId, hclose.rtpConn⟩
      · rcases bind_eq_ok.mp honRead with ⟨⟨ret', events₄, server₄, c₄⟩, hhandle, honRead⟩
        have hlong : events₄ = events'' ∧ SameStanding c₄ c₃ := by
          dsimp only at honRead
          split at honRead
          · cases honRead
            exact ⟨rfl, SameStanding.refl _⟩
          · cases honRead
            refine ⟨rfl, ?_⟩
            split <;> exact ⟨rfl, rfl, rfl, rfl, rfl, rfl⟩
        obtain ⟨rfl, hlong⟩ := hlong
        rcases handleRtspRequest_cases hhandle with ⟨rfl, hsame⟩ | ⟨c₀, c₁, hbefore, hmethod, hafter⟩
        · exact Or.inl ⟨rfl, (SameStanding.parsed c c.request readBuffer).trans (hsame.trans (hlong.trans hclose))⟩
        · exact Or.inr ⟨c₀, server₄, c₁, (SameStanding.parsed c c.request readBuffer).trans hbefore, hmethod,
            hafter.trans (hlong.trans hclose)⟩

/-- A step that ends in a null pointer gets it from a handler. -/
theorem step_nullPointer (h : step md5HashHex a c = .error .nullPointer) :
    ∃ c₀, SameStanding c c₀ ∧ c₀.handleMethod md5HashHex a = .error .nullPointer := by
  unfold step handleRead at h
  rcases bind_eq_error.mp h with h | ⟨_, -, h⟩
  · split at h
    · cases h
    · split at h
      · cases h
      · rcases bind_eq_error.mp h with h | ⟨⟨ret, events, server, c₃⟩, -, h⟩
        · unfold onRead at h
          split at h
          · cases h
          · rcases bind_eq_error.mp h with h | ⟨⟨ret, events, server, c₃⟩, -, h⟩
            · unfold handleRtspRequest at h
              rcases bind_eq_error.mp h with h | ⟨⟨ret, request, readBuffer⟩, -, h⟩
              · exact absurd h (RtspRequest.parseRequest_ne_nullPointer _ _)
              · dsimp only at h
                split at h
                · cases h
                · split at h
                  · cases h
                  · split at h
                    · cases h
                    · rcases bind_eq_error.mp h with h | ⟨_, -, h⟩
                      · exact ⟨_, .parsed c request readBuffer, h⟩
                      · cases h
            · dsimp only at h
              split at h <;> cases h
        · cases h
  · cases h

end RtspConnection

/-! ## The handlers -/

/-- An answer, or the entry into a session. -/
def RtspEvent.Plain : RtspEvent → Prop
  | .sent _ | .joined _ => True
  | .challenged _ | .authenticated .. => False

/-- What every handler keeps. A stream stays, and stays closed where it is, and there is one where there is a session. -/
structure KeepsStream (c c' : RtspConnection) : Prop where
  stream : ∀ e, c.rtpConn = some e → ∃ e', c'.rtpConn = some e' ∧ (e.isClosed = true → e'.isClosed = true)
  session : (c.sessionId ≠ 0 → c.rtpConn.isSome) → c'.sessionId ≠ 0 → c'.rtpConn.isSome

theorem KeepsStream.refl (c : RtspConnection) : KeepsStream c c := ⟨fun e he => ⟨e, he, id⟩, id⟩

theorem KeepsStream.trans {c c' c'' : RtspConnection} (h : KeepsStream c c') (h' : KeepsStream c' c'') : KeepsStream c c'' := by
  refine ⟨fun e he => ?_, fun hc => h'.session (h.session hc)⟩
  obtain ⟨e', he', hclosed⟩ := h.stream e he
  obtain ⟨e'', he'', hclosed'⟩ := h'.stream e' he'
  exact ⟨e'', he'', fun h => hclosed' (hclosed h)⟩

/-- The parser and the reader are not the stream. -/
theorem SameStanding.keepsStream {c c' : RtspConnection} (h : SameStanding c c') : KeepsStream c c' := by
  refine ⟨fun e he => ⟨e, h.rtpConn.trans he, id⟩, fun hc => ?_⟩
  rw [h.sessionId, h.rtpConn]
  exact hc

/-- What a handler keeps where no authentication is at stake. -/
structure Keeps (c c' : RtspConnection) (events : List RtspEvent) : Prop extends KeepsStream c c' where
  authInfo : c'.authInfo = c.authInfo
  hasAuth : c'.hasAuth = c.hasAuth
  nonce : c'.nonce = c.nonce
  plain : ∀ event ∈ events, event.Plain

/-- A handler that sends one answer and leaves the connection as it is. -/
theorem Keeps.answer (c : RtspConnection) (text : Bytes) : Keeps c c [.sent text] :=
  ⟨.refl c, rfl, rfl, rfl, by simp [RtspEvent.Plain]⟩

/-- A handler that does nothing. -/
theorem Keeps.refl (c : RtspConnection) : Keeps c c [] := ⟨KeepsStream.refl c, rfl, rfl, rfl, by simp⟩

/-- A handler that sends one answer and changes a stream that there is. -/
theorem Keeps.stream_answer {c : RtspConnection} {e e' : RtpEndpoint} (he : c.rtpConn = some e)
    (hclosed : e.isClosed = true → e'.isClosed = true) (isPlay : Bool) (text : Bytes) :
    Keeps c { c with rtpConn := some e', isPlay := isPlay } [.sent text] := by
  refine ⟨⟨fun e₀ he₀ => ⟨e', rfl, fun h => hclosed ?_⟩, fun _ _ => rfl⟩, rfl, rfl, rfl, by simp [RtspEvent.Plain]⟩
  rw [he] at he₀
  cases he₀
  exact h

section Endpoint

variable {md5HashHex : Bytes → Bytes} {a : RtspArrival} {c c' : RtspConnection} {events : List RtspEvent} {server : RtspServer}

/-- The type of a payload does not open a stream. -/
@[simp] theorem isClosed_setSource (session : MediaSession) (channel : MediaChannelId) (e : RtpEndpoint) :
    (e.setSource session channel).isClosed = e.isClosed := by
  unfold RtpEndpoint.setSource
  split <;> rfl

theorem isClosed_teardown (e : RtpEndpoint) : e.teardown.isClosed = true := by
  unfold RtpEndpoint.teardown RtpConnection.teardown
  dsimp only
  split
  · rename_i h
    exact h
  · rfl

namespace RtspConnection

theorem keeps_describe (h : c.describe a = .ok (events, server, c')) : Keeps c c' events := by
  have hendpoint : ∀ e, c.rtpConn = some e → c.endpoint a = e := by
    intro e he
    unfold endpoint
    rw [he, Option.getD_some]
  unfold describe at h
  dsimp only at h
  split at h
  · cases h
    exact ⟨⟨fun e he => ⟨_, rfl, by rw [hendpoint e he]; exact id⟩, fun _ _ => rfl⟩, rfl, rfl, rfl, by simp [RtspEvent.Plain]⟩
  · cases h
    refine ⟨⟨fun e he => ⟨_, rfl, ?_⟩, fun _ _ => rfl⟩, rfl, rfl, rfl, by simp [RtspEvent.Plain]⟩
    rw [isClosed_setSource, isClosed_setSource, hendpoint e he]
    exact id

theorem keeps_setup (h : c.setup a = .ok (events, server, c')) : Keeps c c' events := by
  unfold setup at h
  dsimp only at h
  split at h
  · cases h
    exact .answer c _
  · split at h
    · rename_i e he
      unfold RtpEndpoint.setupRtpOverMulticast at h
      by_cases hbound : a.bound = true
      · rw [if_pos hbound] at h
        cases h
        exact .stream_answer he (by exact id) _ _
      · rw [if_neg hbound] at h
        cases h
        exact .stream_answer he (by exact id) _ _
    · rename_i e he
      cases h
      exact .stream_answer he (by exact id) _ _
    · rename_i e he
      unfold RtpEndpoint.setupRtpOverUdp at h
      rcases hports : a.boundPorts with _ | ⟨localRtpPort, localRtcpPort⟩
      · simp only [hports] at h
        cases h
        exact .stream_answer he (by exact id) _ _
      · simp only [hports] at h
        cases h
        exact .stream_answer he (by exact id) _ _
    · cases h
    · cases h
    · cases h
    · cases h
      exact .answer c _

theorem keeps_play (h : c.play a = .ok (events, server, c')) : Keeps c c' events := by
  unfold play at h
  split at h
  · cases h
    exact .refl c
  · rename_i e he
    cases h
    exact .stream_answer he (by exact id) _ _

theorem keeps_teardown (h : c.handleCmdTeardown a = .ok (events, server, c')) : Keeps c c' events := by
  unfold handleCmdTeardown at h
  split at h
  · cases h
    exact .refl c
  · rename_i e he
    cases h
    exact .stream_answer he (fun _ => isClosed_teardown e) _ _

theorem keeps_getParamter (h : c.handleCmdGetParamter a = .ok (events, server, c')) : Keeps c c' events := by
  unfold handleCmdGetParamter at h
  split at h
  · cases h
    exact .refl c
  · cases h
    exact .answer c _

/-- The authentication does not touch the stream. -/
theorem keepsStream_authenticated {md5HashHex : Bytes → Bytes} {handler : RtspArrival → RtspConnection → Handled}
    (hkeeps : ∀ {c c' events server}, handler a c = .ok (events, server, c') → Keeps c c' events)
    (h : c.authenticated md5HashHex handler a = .ok (events, server, c')) : KeepsStream c c' := by
  have hsame : KeepsStream c (c.handleAuthentication md5HashHex a.nonce).2.2 := by
    unfold handleAuthentication
    split
    · dsimp only
      split
      · exact ⟨fun e he => ⟨e, he, id⟩, id⟩
      · exact ⟨fun e he => ⟨e, he, id⟩, id⟩
    · exact .refl c
  unfold authenticated at h
  rcases hpass : c.handleAuthentication md5HashHex a.nonce with ⟨ok, more, c₁⟩
  rw [hpass] at h hsame
  rcases ok with _ | _
  · cases h
    exact hsame
  · rcases bind_eq_ok.mp h with ⟨⟨rest, server', c₂⟩, hhandler, h⟩
    cases h
    exact hsame.trans (hkeeps hhandler).toKeepsStream

/-- No method touches it in another way. -/
theorem keepsStream_handleMethod {md5HashHex : Bytes → Bytes} (h : c.handleMethod md5HashHex a = .ok (events, server, c')) :
    KeepsStream c c' := by
  unfold handleMethod at h
  split at h
  · cases h
    exact .refl c
  · exact keepsStream_authenticated keeps_describe h
  · exact keepsStream_authenticated keeps_setup h
  · exact keepsStream_authenticated keeps_play h
  · exact (keeps_teardown h).toKeepsStream
  · exact (keeps_getParamter h).toKeepsStream
  · cases h
    exact .refl c
  · cases h
    exact .refl c

/-- A step keeps the stream. -/
theorem keepsStream_step {md5HashHex : Bytes → Bytes} (h : step md5HashHex a c = .ok (events, c')) : KeepsStream c c' := by
  rcases step_cases h with ⟨-, hsame⟩ | ⟨c₀, server, c₁, hbefore, hmethod, hafter⟩
  · exact hsame.keepsStream
  · exact hbefore.keepsStream.trans ((keepsStream_handleMethod hmethod).trans hafter.keepsStream)

/-! ## Behind the authentication -/

/-- There are no credentials, or they have been shown. -/
theorem handleAuthentication_of_open (hopen : c.authInfo = none ∨ c.hasAuth = true) (nonce : Bytes) :
    c.handleAuthentication md5HashHex nonce = (true, [], c) := by
  unfold handleAuthentication
  rcases hopen with hopen | hopen
  · rw [hopen]
  · rw [hopen]
    split <;> simp_all

/-- Then a handler runs at once. -/
theorem authenticated_of_open {handler : RtspArrival → RtspConnection → Handled} (hopen : c.authInfo = none ∨ c.hasAuth = true) :
    c.authenticated md5HashHex handler a = handler a c := by
  unfold authenticated
  rw [handleAuthentication_of_open hopen]
  rcases hresult : handler a c with f | ⟨events, server, c'⟩ <;> simp [hresult, bind, Except.bind, pure, Except.pure]

theorem handleMethod_of_describe (hopen : c.authInfo = none ∨ c.hasAuth = true) (hmethod : c.request.method = .describe) :
    c.handleMethod md5HashHex a = c.describe a := by
  unfold handleMethod
  rw [hmethod]
  exact authenticated_of_open hopen

theorem handleMethod_of_setup (hopen : c.authInfo = none ∨ c.hasAuth = true) (hmethod : c.request.method = .setup) :
    c.handleMethod md5HashHex a = c.setup a := by
  unfold handleMethod
  rw [hmethod]
  exact authenticated_of_open hopen

theorem handleMethod_of_play (hopen : c.authInfo = none ∨ c.hasAuth = true) (hmethod : c.request.method = .play) :
    c.handleMethod md5HashHex a = c.play a := by
  unfold handleMethod
  rw [hmethod]
  exact authenticated_of_open hopen

/-- `PLAY` is answered where there is a stream. -/
theorem play_of_stream {e : RtpEndpoint} (hstream : c.rtpConn = some e) :
    c.play a = .ok ([.sent (c.request.buildPlayRes 2048 e.address.toUInt32)], a.server, { c with rtpConn := some e.play, isPlay := true }) := by
  unfold play
  rw [hstream]

/-- So is `SETUP`, whatever becomes of it. -/
theorem setup_of_stream {e : RtpEndpoint} (hstream : c.rtpConn = some e) :
    ∃ text c', c.setup a = .ok ([.sent text], a.server, c') := by
  unfold setup
  rw [hstream]
  dsimp only
  split
  · exact ⟨_, _, rfl⟩
  · split
    · split <;> exact ⟨_, _, rfl⟩
    · exact ⟨_, _, rfl⟩
    · split <;> exact ⟨_, _, rfl⟩
    -- The three cases of a connection without a stream.
    · rename_i h
      cases h
    · rename_i h
      cases h
    · rename_i h
      cases h
    · exact ⟨_, _, rfl⟩

/-- `HandleCmdSetup` finds a session only under a number that is not 0. -/
theorem setup_ne_nullPointer (hsession : c.sessionId ≠ 0 → c.rtpConn.isSome) : c.setup a ≠ .error .nullPointer := by
  intro h
  unfold setup at h
  dsimp only at h
  split at h
  · cases h
  · rename_i session hlook
    obtain ⟨hmem, hid⟩ := RtspServer.sessionId_of_lookId hlook
    have hsome := hsession (by have := (a.server.ids session hmem).1; omega)
    split at h
    · split at h <;> cases h
    · cases h
    · split at h <;> cases h
    all_goals simp_all

/-- No method meets a null pointer. -/
theorem handleMethod_ne_nullPointer {md5HashHex : Bytes → Bytes} (hsession : c.sessionId ≠ 0 → c.rtpConn.isSome) :
    c.handleMethod md5HashHex a ≠ .error .nullPointer := by
  have hpass : ∀ {handler : RtspArrival → RtspConnection → Handled},
      (∀ c₁ : RtspConnection, (c₁.sessionId ≠ 0 → c₁.rtpConn.isSome) → handler a c₁ ≠ .error .nullPointer) →
      c.authenticated md5HashHex handler a ≠ .error .nullPointer := by
    intro handler hhandler h
    have hsame : (c.handleAuthentication md5HashHex a.nonce).2.2.sessionId = c.sessionId ∧
        (c.handleAuthentication md5HashHex a.nonce).2.2.rtpConn = c.rtpConn := by
      unfold handleAuthentication
      split
      · dsimp only
        split <;> exact ⟨rfl, rfl⟩
      · exact ⟨rfl, rfl⟩
    unfold authenticated at h
    rcases hpass : c.handleAuthentication md5HashHex a.nonce with ⟨ok, more, c₁⟩
    rw [hpass] at h hsame
    rcases ok with _ | _
    · cases h
    · rcases bind_eq_error.mp h with h | ⟨_, -, h⟩
      · refine hhandler c₁ ?_ h
        rw [hsame.1, hsame.2]
        exact hsession
      · cases h
  unfold handleMethod
  split
  · simp [handleCmdOption]
  · refine hpass fun c₁ _ h => ?_
    unfold describe at h
    dsimp only at h
    split at h <;> cases h
  · exact hpass fun c₁ h => setup_ne_nullPointer h
  · refine hpass fun c₁ _ h => ?_
    unfold play at h
    split at h <;> cases h
  · unfold handleCmdTeardown
    split <;> simp
  · unfold handleCmdGetParamter
    split <;> simp
  · simp
  · simp

end RtspConnection

end Endpoint

end AuthVideo.Xop
