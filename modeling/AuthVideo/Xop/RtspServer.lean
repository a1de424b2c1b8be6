import AuthVideo.Xop.RtspMessage

/-!
# The sessions of a server

`RtspServer` finds a `MediaSession` by its number, and the number by the suffix of a url. The numbers come from a counter of the
program, a `std::atomic_uint`. The servers here are those of a program whose counter has not gone round: it has made fewer than
`2 ^ 32 - 1` sessions, and no number is 0 or comes twice.
-/

namespace AuthVideo.Xop

/-- `MediaSource`, with the texts that describe it. -/
structure MediaSource where
  clockRate : UInt32
  payloadType : UInt32
  mediaDescription : UInt16 → Bytes
  mediaAttribute : Bytes

/-- `H265Source`. -/
def h265Source : MediaSource where
  clockRate := 90000
  payloadType := 96
  mediaDescription port := cstr "m=video " ++ percentU port.toUInt32 ++ cstr " RTP/AVP 96"
  mediaAttribute := cstr "a=rtpmap:96 H265/90000"

/-- The group of a session behind `StartMulticast`. -/
structure Multicast where
  ip : Bytes
  port : MediaChannelId → UInt16

/-- `MediaSession`. `clients` are the keys of `clients_`. -/
structure MediaSession where
  sessionId : ℕ
  suffix : Bytes
  sources : MediaChannelId → Option MediaSource
  multicast : Option Multicast
  sdp : Bytes
  clients : List ℕ

namespace MediaSession

/-- The lines of `GetSdpMessage` for a channel. -/
def sourceLines (session : MediaSession) (channel : MediaChannelId) : Bytes :=
  match session.sources channel with
  | none => []
  | some source =>
    (match session.multicast with
    | some group => source.mediaDescription (group.port channel) ++ cstr "\r\nc=IN IP4 " ++ group.ip ++ cstr "/255\r\n"
    | none => source.mediaDescription 0 ++ cstr "\r\n") ++
    source.mediaAttribute ++ cstr "\r\na=control:track" ++ percentU (.ofNat channel) ++ cstr "\r\n"

/-- What `GetSdpMessage` writes the first time. Each `snprintf` goes on where the one before ended. -/
def writeSdp (time : UInt64) (ip sessionName : Bytes) (session : MediaSession) : Bytes :=
  snprintf 2048 (cstr "v=0\r\no=- 9" ++ (Nat.toDigits 10 time.toNat).map (fun c => .ofNat c.toNat) ++ cstr " 1 IN IP4 " ++ ip ++
    cstr "\r\nt=0 0\r\na=control:*\r\n" ++ (if sessionName = [] then [] else cstr "s=" ++ sessionName ++ cstr "\r\n") ++
    (if session.multicast.isSome then cstr "a=type:broadcast\r\na=rtcp-unicast: reflection\r\n" else []) ++
    session.sourceLines channel0 ++ session.sourceLines channel1)

/-- `GetSdpMessage`, which keeps its first text. -/
def getSdpMessage (time : UInt64) (ip sessionName : Bytes) (session : MediaSession) : MediaSession :=
  if session.sdp = [] then { session with sdp := session.writeSdp time ip sessionName } else session

/-- `AddClient`. -/
def addClient (socket : ℕ) (session : MediaSession) : MediaSession :=
  if socket ∈ session.clients then session else { session with clients := session.clients ++ [socket] }

/-- `RemoveClient`. -/
def removeClient (socket : ℕ) (session : MediaSession) : MediaSession :=
  { session with clients := session.clients.erase socket }

end MediaSession

/-- The arguments of `SetAuthConfig`. -/
structure Credentials where
  realm : Bytes
  username : Bytes
  password : Bytes
  deriving DecidableEq

/-- `RtspServer`, with the counter of the sessions, which starts at 1 and has not gone round. The two maps have an entry for the same
sessions. -/
structure RtspServer where
  suffixMap : List (Bytes × ℕ)
  sessions : List MediaSession
  lastSessionId : ℕ
  version : Bytes
  auth : Option Credentials
  suffixMap_eq : suffixMap = sessions.map fun session => (session.suffix, session.sessionId)
  ids_nodup : (sessions.map (·.sessionId)).Nodup
  suffixes_nodup : (sessions.map (·.suffix)).Nodup
  ids : ∀ session ∈ sessions, 1 < session.sessionId ∧ session.sessionId ≤ lastSessionId
  counter : 1 ≤ lastSessionId
  counter_lt : lastSessionId < 2 ^ 32

namespace RtspServer

/-- A server without sessions. An empty realm or name turns the authentication off. -/
def new (version : Bytes) (auth : Option Credentials) : RtspServer where
  suffixMap := []
  sessions := []
  lastSessionId := 1
  version := version
  auth := auth.filter fun credentials => credentials.realm ≠ [] ∧ credentials.username ≠ []
  suffixMap_eq := rfl
  ids_nodup := List.nodup_nil
  suffixes_nodup := List.nodup_nil
  ids := fun _ h => absurd h List.not_mem_nil
  counter := le_refl 1
  counter_lt := by decide

/-- `LookMediaSession` by the number. -/
def lookId (id : ℕ) (server : RtspServer) : Option MediaSession := server.sessions.find? fun session => session.sessionId = id

/-- `LookMediaSession` by the suffix. -/
def lookSuffix (suffix : Bytes) (server : RtspServer) : Option MediaSession :=
  (server.suffixMap.lookup suffix).bind fun id => server.lookId id

/-- `MediaSession::CreateNew` and `AddSession`, which gives 0 where the suffix is taken, while the counter does not go round. -/
def addSession (suffix : Bytes) (sources : MediaChannelId → Option MediaSource) (multicast : Option Multicast)
    (server : RtspServer) (hroom : server.lastSessionId + 1 < 2 ^ 32) : ℕ × RtspServer :=
  let id := server.lastSessionId + 1
  if h : suffix ∈ server.sessions.map (·.suffix) then
    (0, { server with
      lastSessionId := id
      ids := fun session hmem => ⟨(server.ids session hmem).1, (server.ids session hmem).2.trans (Nat.le_succ _)⟩
      counter := Nat.le_add_left 1 _
      counter_lt := hroom })
  else
    (id, { server with
      suffixMap := server.suffixMap ++ [(suffix, id)]
      sessions := server.sessions ++ [⟨id, suffix, sources, multicast, [], []⟩]
      lastSessionId := id
      suffixMap_eq := by rw [server.suffixMap_eq, List.map_append]; rfl
      ids_nodup := by
        rw [List.map_append, List.nodup_append]
        refine ⟨server.ids_nodup, List.nodup_singleton _, fun n hn m hm => ?_⟩
        obtain ⟨session, hmem, rfl⟩ := List.mem_map.mp hn
        obtain rfl := List.mem_singleton.mp hm
        exact Nat.ne_of_lt (Nat.lt_succ_of_le (server.ids session hmem).2)
      suffixes_nodup := by
        rw [List.map_append, List.nodup_append]
        refine ⟨server.suffixes_nodup, List.nodup_singleton _, fun n hn m hm => ?_⟩
        obtain rfl := List.mem_singleton.mp hm
        rintro rfl
        exact h hn
      ids := fun session hmem => by
        rcases List.mem_append.mp hmem with hold | hnew
        · exact ⟨(server.ids session hold).1, (server.ids session hold).2.trans (Nat.le_succ _)⟩
        · obtain rfl := List.mem_singleton.mp hnew
          exact ⟨Nat.lt_succ_of_le server.counter, le_refl id⟩
      counter := Nat.le_add_left 1 _
      counter_lt := hroom })

/-- The number that is looked up is the number of the session. -/
theorem sessionId_of_lookId {id : ℕ} {server : RtspServer} {session : MediaSession} (h : server.lookId id = some session) :
    session ∈ server.sessions ∧ session.sessionId = id :=
  ⟨List.mem_of_find?_eq_some h, by simpa using List.find?_some h⟩

/-- A change of one session that leaves its number and its suffix. -/
def modify (id : ℕ) (f : MediaSession → MediaSession)
    (hf : ∀ session, (f session).sessionId = session.sessionId ∧ (f session).suffix = session.suffix) (server : RtspServer) : RtspServer :=
  let change := fun session : MediaSession => if session.sessionId = id then f session else session
  have hchange : ∀ session, (change session).sessionId = session.sessionId ∧ (change session).suffix = session.suffix := by
    intro session
    unfold change
    split
    · exact hf session
    · exact ⟨rfl, rfl⟩
  { server with
    sessions := server.sessions.map change
    suffixMap_eq := by
      rw [server.suffixMap_eq, List.map_map]
      exact List.map_congr_left fun session _ => by simp only [Function.comp, hchange]
    ids_nodup := by
      rw [List.map_map, show (fun session => session.sessionId) ∘ change = fun session => session.sessionId from
        funext fun session => (hchange session).1]
      exact server.ids_nodup
    suffixes_nodup := by
      rw [List.map_map, show (fun session => session.suffix) ∘ change = fun session => session.suffix from
        funext fun session => (hchange session).2]
      exact server.suffixes_nodup
    ids := fun session hmem => by
      obtain ⟨old, hold, rfl⟩ := List.mem_map.mp hmem
      rw [(hchange old).1]
      exact server.ids old hold }

end RtspServer

end AuthVideo.Xop
