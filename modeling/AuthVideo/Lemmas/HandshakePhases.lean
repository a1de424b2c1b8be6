import AuthVideo.Lemmas.Handshake

/-!
# The phases of the handshake

A request is sent, read and answered, one after the other. It is lost where the server reads the whole of it with bytes in front.
-/

namespace AuthVideo

open Xop Lines

namespace Handshake

/-- An answer is on its way. -/
structure Comes (r : Round) (s : Handshake) : Prop where
  pc : s.client.pc = r.await
  board : ∃ board, s.client.receive s.toClient = some (.ok board) ∧ Goes (addressOf s.server) board r
  served : Served (r.answers + 1) s.server s.sessions
  ne_nil : s.toClient ≠ []
  length_le : s.toClient.length ≤ 1023
  clean : r ≠ .play → Clean s.server s.toServer
  behind : Behind s.server s.toServer

/-- Where the two sides stand, with the last request. -/
inductive Phase (s : Handshake) (last : Option Bytes) : Prop
  /-- The board is in front of a request. -/
  | sends (r : Round) (hboard : Sends r (addressOf s.server) s.client) (hserved : Served r.answers s.server s.sessions)
      (htoClient : s.toClient = []) (hclean : Clean s.server s.toServer)
  /-- A request comes behind an empty line. -/
  | together (r : Round) (hboard : Awaits r (addressOf s.server) s.client) (hserved : Served r.answers s.server s.sessions)
      (htoClient : s.toClient = []) (hlast : last = some (r.exchange (addressOf s.server)).text) (hfresh : AtRequestLine s.server.request)
      (hcut : Unfinished 13 s.server.readBuffer.readable)
      (hbytes : s.server.readBuffer.readable ++ s.toServer = 13 :: 10 :: (r.exchange (addressOf s.server)).text)
  /-- A request is read. -/
  | reading (r : Round) (hboard : Awaits r (addressOf s.server) s.client) (hserved : Served r.answers s.server s.sessions)
      (htoClient : s.toClient = []) (hlast : last = some (r.exchange (addressOf s.server)).text)
      (hreading : Reading (r.exchange (addressOf s.server)) s.server s.toServer)
  /-- It is answered. -/
  | answered (r : Round) (hcomes : Comes r s)
  /-- All are answered. -/
  | done (hpc : s.client.pc = .done) (hsession : s.client.sessionId = percentU (addressOf s.server).toUInt32)
      (hserved : Served 3 s.server s.sessions) (hbehind : Behind s.server s.toServer)

/-- The board waits, and nothing is on its way. -/
def Lost (s : Handshake) : Prop := s.toServer = [] ∧ s.toClient = [] ∧ ∃ r : Round, s.client.pc = r.await

/-- The bytes have the whole last request at their end, and something in front of it. -/
def Together (last : Option Bytes) (bytes : Bytes) : Prop := ∃ text, last = some text ∧ text <:+ bytes ∧ bytes ≠ text

/-- How many requests are to come. -/
def left : ClientPc → ℕ
  | .describe => 3
  | .awaitDescribe | .setup => 2
  | .awaitSetup | .play => 1
  | .awaitPlay | .done => 0

/-- The reader of the server does not grow over its bound. -/
def Room (s : Handshake) : Prop := s.server.readBuffer.writerIndex + s.toServer.length + 256 * left s.client.pc ≤ 768

/-- The three requests are longer than what is left of one. -/
theorem length_text (address : UInt16) (r : Round) : 23 < (r.exchange address).text.length := by
  have hline : (r.exchange address).line.length = 45 ∨ (r.exchange address).line.length = 52 ∨ (r.exchange address).line.length = 41 := by
    cases r
    · exact Or.inl rfl
    · exact Or.inr (Or.inl rfl)
    · exact Or.inr (Or.inr rfl)
  simp only [Exchange.text, Exchange.lines, joined_cons, List.length_append, List.length_cons]
  omega

/-- They begin with a letter. -/
theorem head_text (address : UInt16) (r : Round) : (r.exchange address).text.head? ≠ some 10 := by
  cases r <;> simp [Round.exchange, Exchange.text, Exchange.lines, describeExchange, setupExchange, playExchange, cstr]

/-- What is left of an empty line is left of a request. -/
theorem Clean.behind {c : RtspConnection} {toCome : Bytes} (h : Clean c toCome) : Behind c toCome := by
  refine ⟨h.fresh, ?_⟩
  rcases h.bytes with hbytes | hbytes
  · exact ⟨[], List.nil_suffix, hbytes⟩
  · exact ⟨[[]], by decide, hbytes⟩

/-- A board that waits, or is done, sends nothing. -/
theorem send_eq_none {board : RtspClient} (h : (∃ r : Round, board.pc = r.await) ∨ board.pc = .done) : board.send = none := by
  unfold RtspClient.send
  rcases h with ⟨r, hpc⟩ | hpc
  · cases r <;> rw [hpc] <;> rfl
  · rw [hpc]

/-- One that is to send, or is done, receives nothing. -/
theorem receive_eq_none {board : RtspClient} (h : (∃ r : Round, board.pc = r.send) ∨ board.pc = .done) (bytes : Bytes) :
    board.receive bytes = none := by
  unfold RtspClient.receive
  rcases h with ⟨r, hpc⟩ | hpc
  · cases r <;> rw [hpc] <;> rfl
  · rw [hpc]

/-- The end of a request is an empty line. -/
theorem tail_eq (address : UInt16) (r : Round) : ∃ ls, (r.exchange address).tail = ls ++ [[]] := by
  cases r
  · exact ⟨[], rfl⟩
  · exact ⟨[], rfl⟩
  · exact ⟨[cstr "Range: npt=0.000-"], rfl⟩

/-- More than the empty line at its end. -/
theorem ne_end_of_reading {address : UInt16} {r : Round} {c : RtspConnection} {toCome : Bytes} (h : Reading (r.exchange address) c toCome)
    (hcut : Unfinished 13 c.readBuffer.readable) : toCome ≠ [13, 10] := by
  rintro rfl
  obtain ⟨ls, htail⟩ := tail_eq address r
  have hlines : ∃ l ls', c.readBuffer.readable ++ [13, 10] = joined 13 10 (l :: ls') ++ [13, 10] := by
    have hsplit : ∀ ls' : List Bytes, joined 13 10 (ls' ++ [[]]) = joined 13 10 ls' ++ [13, 10] := fun ls' => by rw [joined_append]; rfl
    rcases h with ⟨-, hbytes⟩ | ⟨-, -, -, -, hbytes⟩ | ⟨-, -, -, hbytes⟩
    · refine ⟨(r.exchange address).line, (r.exchange address).cseq :: (r.exchange address).deciding :: ls, ?_⟩
      rw [hbytes, ← hsplit, Exchange.text, Exchange.lines, htail]
      rfl
    · refine ⟨(r.exchange address).cseq, (r.exchange address).deciding :: ls, ?_⟩
      rw [hbytes, ← hsplit, htail]
      rfl
    · refine ⟨(r.exchange address).deciding, ls, ?_⟩
      rw [hbytes, ← hsplit, htail]
      rfl
  obtain ⟨l, ls', hbytes⟩ := hlines
  rw [List.append_cancel_right hbytes] at hcut
  exact not_unfinished_joined (by decide) l ls' hcut

/-- The whole of a request behind some bytes, of which there is only an end of a line in front. -/
theorem together_iff {text bytes front readable rest : Bytes} (hhead : text.head? ≠ some 10) (hfront : front = [10] ∨ front = [13, 10])
    (hbytes : bytes = front ++ readable) (htext : readable ++ rest = text) : Together (some text) bytes ↔ rest = [] := by
  have hlen := congrArg List.length htext
  rw [List.length_append] at hlen
  constructor
  · rintro ⟨text', hsome, hsuffix, hne⟩
    cases hsome
    have hread : text <:+ readable := by
      rcases hfront with rfl | rfl
      · rw [hbytes, List.singleton_append, List.suffix_cons_iff] at hsuffix
        exact hsuffix.resolve_left fun heq => hne (hbytes.trans heq.symm)
      · rw [hbytes, List.cons_append, List.singleton_append, List.suffix_cons_iff, List.suffix_cons_iff] at hsuffix
        rcases hsuffix with heq | heq | hsuffix
        · exact absurd (hbytes.trans heq.symm) hne
        · rw [heq] at hhead
          simp at hhead
        · exact hsuffix
    have hle := hread.length_le
    exact List.length_eq_zero_iff.mp (by omega)
  · rintro rfl
    rw [List.append_nil] at htext
    refine ⟨text, rfl, ⟨front, by rw [hbytes, htext]⟩, fun heq => ?_⟩
    have hlen' := congrArg List.length (hbytes.symm.trans heq)
    rcases hfront with rfl | rfl <;> simp only [List.length_append, List.length_cons, List.length_nil] at hlen hlen' <;> omega

/-- What is left behind the line that the method waits for. -/
theorem tail_suffix (address : UInt16) (r : Round) : (r.exchange address).tail <:+ [cstr "Range: npt=0.000-", []] := by
  cases r
  · exact List.suffix_cons _ _
  · exact List.suffix_cons _ _
  · exact List.suffix_refl _

/-- It is an empty line, if the request is not the third one. -/
theorem tail_drop {address : UInt16} {r : Round} (hr : r ≠ .play) (m : ℕ) :
    joined 13 10 ((r.exchange address).tail.drop m) = [] ∨ joined 13 10 ((r.exchange address).tail.drop m) = [13, 10] := by
  have htail : (r.exchange address).tail = [[]] := by
    cases r with
    | describe => rfl
    | setup => rfl
    | play => exact absurd rfl hr
  rw [htail]
  rcases m with _ | m
  · exact Or.inr rfl
  · exact Or.inl (by simp)

section Phase

variable {H : Bytes → Bytes} {s : Handshake} {last : Option Bytes}

/-! ## The board -/

theorem step_send_of_none (h : s.client.send = none) : Handshake.step H .send s = .error .blocked := by
  simp only [Handshake.step, h]

theorem step_receive_of_none (h : ∀ bytes, s.client.receive bytes = none) (missing : ℕ) :
    Handshake.step H (.receive missing) s = .error .blocked := by
  simp only [Handshake.step, h]
  split <;> rfl

theorem step_receive_of_nil (hopen : s.server.isClosed = false) (h : s.toClient = []) (missing : ℕ) :
    Handshake.step H (.receive missing) s = .error .blocked := by
  simp [Handshake.step, h, hopen]

/-- The board receives an answer. -/
theorem Comes.step {r : Round} (h : Comes r s) :
    ∃ board, Handshake.step H (.receive 0) s = .ok (.received s.toClient, { s with client := board, toClient := [] }) ∧
      Goes (addressOf s.server) board r := by
  obtain ⟨board, hreceive, hgoes⟩ := h.board
  have hlen := h.length_le
  have htake : s.toClient.take (min (s.toClient.length - 0) 1023) = s.toClient := List.take_of_length_le (by omega)
  refine ⟨board, ?_, hgoes⟩
  unfold Handshake.step
  simp only [htake, hreceive, List.drop_length]
  rw [if_neg (by simp [h.ne_nil])]

/-- The board behind its request. -/
def asked (r : Round) (s : Handshake) : Handshake :=
  { s with
    client := { s.client with pc := r.await, cseq := s.client.cseq + 1 }
    toServer := s.toServer ++ (r.exchange (addressOf s.server)).text }

theorem step_send {r : Round} (hboard : Sends r (addressOf s.server) s.client) :
    Handshake.step H .send s = .ok (.sent (r.exchange (addressOf s.server)).text, asked r s) := by
  simp only [Handshake.step, hboard.send]
  rfl

theorem asked_ne_nil (r : Round) : (asked r s).toServer ≠ [] := by
  have hlong := length_text (addressOf s.server) r
  intro hnil
  have htext : (r.exchange (addressOf s.server)).text = [] := (List.append_eq_nil_iff.mp hnil).2
  rw [htext] at hlong
  simp at hlong

/-- There is room for a request. -/
theorem Room.send {r : Round} (hroom : Room s) (hboard : Sends r (addressOf s.server) s.client) : Room (asked r s) := by
  have hshort := (r.understood (addressOf s.server)).short
  have hleft : left r.send = left r.await + 1 := by cases r <;> rfl
  unfold Room asked at *
  rw [hboard.pc, hleft] at hroom
  simp only [List.length_append]
  omega

/-- The board sends a request, or cannot. -/
theorem Phase.send (h : Phase s last) (hroom : Room s) :
    Handshake.step H .send s = .error .blocked ∨
      ∃ text s', Handshake.step H .send s = .ok (.sent text, s') ∧ Phase s' (some text) ∧ Room s' ∧ 23 < text.length ∧
        ¬ Lost s' := by
  cases h with
  | sends r hboard hserved htoClient hclean =>
    refine Or.inr ⟨_, _, step_send hboard, ?_, hroom.send hboard, length_text _ r, fun hlost => asked_ne_nil r hlost.1⟩
    rcases hclean.bytes with hbytes | hbytes
    · refine .reading r hboard.awaits hserved htoClient rfl (.line hclean.fresh ?_)
      unfold asked
      rw [← List.append_assoc, hbytes]
      rfl
    · refine .together r hboard.awaits hserved htoClient rfl hclean.fresh hclean.cut ?_
      unfold asked
      rw [← List.append_assoc, hbytes]
      rfl
  | together r hboard => exact Or.inl (step_send_of_none (send_eq_none (Or.inl ⟨r, hboard.pc⟩)))
  | reading r hboard => exact Or.inl (step_send_of_none (send_eq_none (Or.inl ⟨r, hboard.pc⟩)))
  | answered r hcomes => exact Or.inl (step_send_of_none (send_eq_none (Or.inl ⟨r, hcomes.pc⟩)))
  | done hpc => exact Or.inl (step_send_of_none (send_eq_none (Or.inr hpc)))

/-- The board behind an answer. -/
theorem Phase.next (last : Option Bytes) {r : Round} {board : RtspClient} (hboard : Goes (addressOf s.server) board r)
    (hserved : Served (r.answers + 1) s.server s.sessions) (hclean : r ≠ .play → Clean s.server s.toServer)
    (hbehind : Behind s.server s.toServer) :
    Phase { s with client := board, toClient := [] } last ∧ left board.pc = left r.await ∧ ¬ ∃ r' : Round, board.pc = r'.await := by
  cases r with
  | describe =>
    refine ⟨.sends .setup hboard hserved rfl (hclean (by simp)), by rw [hboard.pc]; rfl, ?_⟩
    rintro ⟨r', hpc⟩
    cases r' <;> simp [hboard.pc, Round.send, Round.await] at hpc
  | setup =>
    refine ⟨.sends .play hboard hserved rfl (hclean (by simp)), by rw [hboard.pc]; rfl, ?_⟩
    rintro ⟨r', hpc⟩
    cases r' <;> simp [hboard.pc, Round.send, Round.await] at hpc
  | play =>
    refine ⟨.done hboard.1 hboard.2 hserved hbehind, by rw [hboard.1]; rfl, ?_⟩
    rintro ⟨r', hpc⟩
    cases r' <;> simp [hboard.1, Round.await] at hpc

/-- It receives an answer, or there is none. -/
theorem Phase.receive (h : Phase s last) (hroom : Room s) :
    Handshake.step H (.receive 0) s = .error .blocked ∨
      ∃ bytes s', Handshake.step H (.receive 0) s = .ok (.received bytes, s') ∧ Phase s' last ∧ Room s' ∧ ¬ Lost s' := by
  cases h with
  | sends r hboard => exact Or.inl (step_receive_of_none (receive_eq_none (Or.inl ⟨r, hboard.pc⟩)) 0)
  | together r hboard hserved htoClient => exact Or.inl (step_receive_of_nil hserved.isOpen htoClient 0)
  | reading r hboard hserved htoClient => exact Or.inl (step_receive_of_nil hserved.isOpen htoClient 0)
  | answered r hcomes =>
    obtain ⟨board, hstep, hgoes⟩ := hcomes.step (H := H)
    obtain ⟨hphase, hleft, hnot⟩ := Phase.next last hgoes hcomes.served hcomes.clean hcomes.behind
    refine Or.inr ⟨_, _, hstep, hphase, ?_, fun hlost => hnot hlost.2.2⟩
    unfold Room at hroom ⊢
    rw [hcomes.pc, ← hleft] at hroom
    exact hroom
  | done hpc => exact Or.inl (step_receive_of_none (receive_eq_none (Or.inr hpc)) 0)

/-! ## The server -/

/-- What a read gives to the connection. -/
def arrival (count : ℕ) (a : RtspArrival) (s : Handshake) : RtspArrival :=
  { a with bytes := s.toServer.take (min (count + 1) maxBytesPerRead), server := s.sessions }

/-- What is on its way behind it. -/
def rest (count : ℕ) (s : Handshake) : Bytes := s.toServer.drop (s.toServer.take (min (count + 1) maxBytesPerRead)).length

/-- What a step of the server comes to. -/
def Reads (H : Bytes → Bytes) (s : Handshake) (last : Option Bytes) (count : ℕ) (a : RtspArrival) : Prop :=
  ∃ events s', Handshake.step H (.read count a) s = .ok (.read (arrival count a s).bytes events, s') ∧ Phase s' last ∧ Room s' ∧
    (Together last (arrival count a s).bytes ↔ Lost s')

section Server

variable {count : ℕ} {a : RtspArrival}

theorem append_rest (s : Handshake) (count : ℕ) (a : RtspArrival) : (arrival count a s).bytes ++ rest count s = s.toServer := by
  unfold arrival rest
  rw [List.prefix_iff_eq_append.mp (List.take_prefix _ _)]

theorem bytes_ne_nil (count : ℕ) (a : RtspArrival) (h : s.toServer ≠ []) : (arrival count a s).bytes ≠ [] := by
  unfold arrival
  rw [Ne, List.take_eq_nil_iff, not_or]
  exact ⟨by simp [maxBytesPerRead], h⟩

/-- The connection can read. -/
theorem readable_arrival (count : ℕ) (a : RtspArrival) (hopen : s.server.isClosed = false) (hroom : Room s) (h : s.toServer ≠ []) :
    Readable (arrival count a s) s.server where
  isOpen := hopen
  ne_nil := bytes_ne_nil count a h
  length_le := (List.length_take_le _ _).trans (min_le_right _ _)
  room := by
    unfold Room at hroom
    simp only [maxBytesPerRead, maxBufferSize]
    omega

/-- A step of the server. -/
theorem step_read {events : List RtspEvent} {sessions : RtspServer} {server : RtspConnection} (hopen : s.server.isClosed = false)
    (h : s.toServer ≠ []) (hread : s.server.handleRead H (arrival count a s) = .ok (events, sessions, server)) :
    Handshake.step H (.read count a) s = .ok (.read (arrival count a s).bytes events,
      { s with server, sessions, toServer := rest count s, toClient := s.toClient ++ Handshake.textsOf events }) := by
  have hne := bytes_ne_nil count a h
  unfold arrival at hread hne
  unfold Handshake.step
  simp only [hopen, Bool.or_false, decide_eq_true_eq]
  rw [if_neg hne, hread]
  rfl

theorem length_bytes_add (s : Handshake) (count : ℕ) (a : RtspArrival) : (arrival count a s).bytes.length + (rest count s).length = s.toServer.length := by
  rw [← List.length_append, append_rest]

/-- There is room behind a read. -/
theorem Room.read (hroom : Room s) {server : RtspConnection} (sessions : RtspServer) (toClient : Bytes)
    (hle : server.readBuffer.writerIndex ≤ s.server.readBuffer.writerIndex + (arrival count a s).bytes.length) :
    Room { s with server, sessions, toServer := rest count s, toClient } := by
  have hsplit := length_bytes_add s count a
  unfold Room at hroom ⊢
  dsimp only
  omega

/-- Few bytes have no request in them. -/
theorem not_together (hlong : ∀ text, last = some text → 23 < text.length) {bytes : Bytes} (h : bytes.length ≤ 21) :
    ¬ Together last bytes := by
  rintro ⟨text, hlast, hsuffix, -⟩
  have hle := hsuffix.length_le
  have hlt := hlong text hlast
  omega

/-- A read of what is left of a request. -/
theorem reads_trailing {b' : BufferReader} (hopen : s.server.isClosed = false) (h : s.toServer ≠ []) (hroom : Room s)
    (hlong : ∀ text, last = some text → 23 < text.length) (hshort : s.toServer.length ≤ 21)
    (hread : s.server.handleRead H (arrival count a s) = .ok ([], s.sessions, { s.server with readBuffer := b' }))
    (hle : b'.writerIndex ≤ s.server.readBuffer.writerIndex + (arrival count a s).bytes.length)
    (hphase : Phase { s with server := { s.server with readBuffer := b' }, toServer := rest count s } last)
    (hnot : ¬ (s.toClient = [] ∧ ∃ r : Round, s.client.pc = r.await)) : Reads H s last count a := by
  have hstep := step_read hopen h hread
  rw [show s.toClient ++ Handshake.textsOf [] = s.toClient by simp [Handshake.textsOf]] at hstep
  have hsplit := length_bytes_add s count a
  refine ⟨_, _, hstep, hphase, hroom.read s.sessions s.toClient hle, ?_⟩
  exact iff_of_false (not_together hlong (by omega)) fun hlost => hnot hlost.2

/-- A read where the request comes behind an empty line. -/
theorem reads_together {r : Round} (hboard : Awaits r (addressOf s.server) s.client) (hserved : Served r.answers s.server s.sessions)
    (htoClient : s.toClient = []) (hlast : last = some (r.exchange (addressOf s.server)).text) (hfresh : AtRequestLine s.server.request)
    (hcut : Unfinished 13 s.server.readBuffer.readable)
    (hbytes : s.server.readBuffer.readable ++ s.toServer = 13 :: 10 :: (r.exchange (addressOf s.server)).text)
    (h : s.toServer ≠ []) (hroom : Room s) : Reads H s last count a := by
  have hx := r.understood (addressOf s.server)
  have hlong := length_text (addressOf s.server) r
  have hsplit := length_bytes_add s count a
  rw [← append_rest s count a] at hbytes
  obtain ⟨b', hread, hle, hcases⟩ := together_read (H := H) hfresh (hx.head_ne (u := []) rfl List.prefix_rfl) hx.short
    hbytes (readable_arrival count a hserved.isOpen hroom h)
  have hstep := step_read hserved.isOpen h hread
  rw [show s.toClient ++ Handshake.textsOf [] = s.toClient by simp [Handshake.textsOf]] at hstep
  refine ⟨_, _, hstep, ?_⟩
  rcases hcases with ⟨hreadable, hcut'⟩ | ⟨hfront, htext⟩
  · -- The empty line has not come to its end.
    have hbytes' : b'.readable ++ rest count s = 13 :: 10 :: (r.exchange (addressOf s.server)).text := by
      rw [hreadable, List.append_assoc]
      exact hbytes
    have hshort : (arrival count a s).bytes.length ≤ 1 := by
      have hlen := congrArg List.length hreadable
      rw [List.length_append] at hlen
      rcases hcut'.eq_nil_or (by decide) hbytes' with heq | heq <;> rw [heq] at hlen <;> simp at hlen <;> omega
    refine ⟨.together r hboard (hserved.congr _ b') htoClient hlast hfresh hcut' hbytes', hroom.read s.sessions s.toClient hle, ?_⟩
    refine iff_of_false (not_together (fun text htext => ?_) (by omega)) fun hlost => ?_
    · rw [hlast] at htext
      cases htext
      exact hlong
    · rw [show rest count s = [] from hlost.1, List.append_nil] at hbytes'
      rw [hbytes'] at hcut'
      exact hcut'.no_end (by decide) (List.prefix_append [13, 10] _).isInfix
  · have hends : (arrival count a s).bytes = [10] ++ b'.readable ∨ (arrival count a s).bytes = [13, 10] ++ b'.readable := by
      rcases hcut.eq_nil_or (by decide) hbytes with heq | heq
      · rw [heq] at hfront
        exact Or.inr hfront
      · rw [heq] at hfront
        exact Or.inl (List.cons.inj hfront).2
    have hiff : Together last (arrival count a s).bytes ↔ rest count s = [] := by
      rw [hlast]
      rcases hends with hends | hends
      · exact together_iff (head_text _ r) (Or.inl rfl) hends htext
      · exact together_iff (head_text _ r) (Or.inr rfl) hends htext
    refine ⟨.reading r hboard (hserved.congr _ b') htoClient hlast (.line hfresh htext), hroom.read s.sessions s.toClient hle, ?_⟩
    rw [hiff]
    exact ⟨fun hnil => ⟨hnil, htoClient, r, hboard.pc⟩, fun hlost => hlost.1⟩

/-- A read that completes a request. -/
theorem comes_of_answers {r : Round} (hboard : Awaits r (addressOf s.server) s.client) (hserved : Served r.answers s.server s.sessions)
    (htoClient : s.toClient = []) (h : s.toServer ≠ []) (hwhole : (HandshakeStep.read count a).Whole) {channel : MediaChannelId}
    {transport : TransportMode} {m : ℕ} {b' : BufferReader}
    (hle : b'.writerIndex ≤ s.server.readBuffer.writerIndex + (arrival count a s).bytes.length)
    (hrest : b'.readable ++ rest count s = joined 13 10 ((r.exchange (addressOf s.server)).tail.drop m)) (hcut : Unfinished 13 b'.readable)
    (hanswer : ∀ events server c₁,
      { s.server with request := (r.exchange (addressOf s.server)).final channel transport, readBuffer := b' }.handleMethod H
          (arrival count a s) = .ok (events, server, c₁) →
        c₁.readBuffer = b' →
          s.server.handleRead H (arrival count a s) = .ok (events, server, { c₁ with request := c₁.request.reset })) :
    ∃ events s', Handshake.step H (.read count a) s = .ok (.read (arrival count a s).bytes events, s') ∧ Comes r s' ∧
      s'.toServer = rest count s ∧ s'.client = s.client ∧
      s'.server.readBuffer.writerIndex ≤ s.server.readBuffer.writerIndex + (arrival count a s).bytes.length := by
  obtain ⟨events, server, c₁, hhandle, hbuffer, hserved', hne, hlen, hboard'⟩ :=
    (Served.answered (H := H) (a := arrival count a s) r (hserved.congr ((r.exchange (addressOf s.server)).final channel transport) b')
      (rfl : _ = (r.exchange (addressOf s.server)).final channel transport) hwhole.2 hwhole.1).answer
  have hstep := step_read hserved.isOpen h (hanswer events server c₁ hhandle hbuffer)
  rw [show s.toClient ++ Handshake.textsOf events = Handshake.textsOf events by rw [htoClient]; rfl] at hstep
  obtain rfl : b' = c₁.readBuffer := hbuffer.symm
  refine ⟨events, _, hstep, ⟨hboard.pc, hboard' s.client hboard, hserved'.congr c₁.request.reset c₁.readBuffer, hne, hlen,
    fun hr => ⟨atRequestLine_reset _, hcut, ?_⟩, ⟨atRequestLine_reset _, _, (List.drop_suffix m _).trans (tail_suffix _ r), hrest⟩⟩, rfl, rfl, hle⟩
  dsimp only
  rw [hrest]
  exact tail_drop hr m

/-- A read of a request. -/
theorem reads_reading {r : Round} (hboard : Awaits r (addressOf s.server) s.client) (hserved : Served r.answers s.server s.sessions)
    (htoClient : s.toClient = []) (hlast : last = some (r.exchange (addressOf s.server)).text)
    (hreading : Reading (r.exchange (addressOf s.server)) s.server s.toServer)
    (h : s.toServer ≠ []) (hroom : Room s) (hwhole : (HandshakeStep.read count a).Whole) : Reads H s last count a := by
  have hx := r.understood (addressOf s.server)
  have hsplit := length_bytes_add s count a
  have hshort := hreading.length_le
  have hnot : ¬ Together last (arrival count a s).bytes := by
    rintro ⟨text, hsome, hsuffix, hne⟩
    rw [hlast] at hsome
    cases hsome
    exact hne (hsuffix.eq_of_length_le (by omega)).symm
  rw [← append_rest s count a] at hreading
  rcases hreading.read (H := H) hx (readable_arrival count a hserved.isOpen hroom h) with
    ⟨r', b', hread, hle, hcut, hreading'⟩ | ⟨channel, transport, m, b', hle, hrest, hcut, hanswer⟩
  · have hstep := step_read hserved.isOpen h hread
    rw [show s.toClient ++ Handshake.textsOf [] = s.toClient by simp [Handshake.textsOf]] at hstep
    refine ⟨_, _, hstep, .reading r hboard (hserved.congr r' b') htoClient hlast hreading', hroom.read s.sessions s.toClient hle, ?_⟩
    exact iff_of_false hnot fun hlost => hreading'.ne_nil hcut hlost.1
  · obtain ⟨events, s', hstep, hcomes, htoServer, hclient, hle'⟩ :=
      comes_of_answers hboard hserved htoClient h hwhole hle hrest hcut hanswer
    refine ⟨events, s', hstep, .answered r hcomes, ?_, iff_of_false hnot fun hlost => hcomes.ne_nil hlost.2.1⟩
    unfold Room at hroom ⊢
    rw [htoServer, hclient]
    omega

/-- The server reads, or cannot. -/
theorem Phase.read (hphase : Phase s last) (hroom : Room s) (hlong : ∀ text, last = some text → 23 < text.length)
    (hwhole : (HandshakeStep.read count a).Whole) :
    Handshake.step H (.read count a) s = .error .blocked ∨ Reads H s last count a := by
  by_cases h : s.toServer = []
  · exact Or.inl (by simp [Handshake.step, h])
  · refine Or.inr ?_
    cases hphase with
    | sends r hboard hserved htoClient hclean =>
      have hshort := hclean.length_le
      rw [← append_rest s count a] at hclean
      obtain ⟨b', hread, hle, hclean'⟩ := hclean.read (H := H) (readable_arrival count a hserved.isOpen hroom h)
      refine reads_trailing hserved.isOpen h hroom hlong (by omega) hread hle (.sends r hboard (hserved.congr _ b') htoClient hclean') ?_
      rintro ⟨-, r', hpc⟩
      rw [hboard.pc] at hpc
      cases r <;> cases r' <;> cases hpc
    | together r hboard hserved htoClient hlast hfresh hcut hbytes =>
      exact reads_together hboard hserved htoClient hlast hfresh hcut hbytes h hroom
    | reading r hboard hserved htoClient hlast hreading => exact reads_reading hboard hserved htoClient hlast hreading h hroom hwhole
    | answered r hcomes =>
      obtain ⟨hpc, hboard, hserved, hne, hlen, hclean, hbehind⟩ := hcomes
      have hshort := hbehind.length_le
      have hreadable := readable_arrival count a hserved.isOpen hroom h
      rw [← append_rest s count a] at hclean hbehind
      by_cases hr : r = .play
      · obtain ⟨b', hread, hle, hbehind'⟩ := hbehind.read (H := H) hreadable
        exact reads_trailing hserved.isOpen h hroom hlong hshort hread hle
          (.answered r ⟨hpc, hboard, hserved.congr _ b', hne, hlen, fun hnot => absurd hr hnot, hbehind'⟩) fun hnil => hne hnil.1
      · obtain ⟨b', hread, hle, hclean'⟩ := (hclean hr).read (H := H) hreadable
        exact reads_trailing hserved.isOpen h hroom hlong hshort hread hle
          (.answered r ⟨hpc, hboard, hserved.congr _ b', hne, hlen, fun _ => hclean', hclean'.behind⟩) fun hnil => hne hnil.1
    | done hpc hsession hserved hbehind =>
      have hshort := hbehind.length_le
      rw [← append_rest s count a] at hbehind
      obtain ⟨b', hread, hle, hbehind'⟩ := hbehind.read (H := H) (readable_arrival count a hserved.isOpen hroom h)
      refine reads_trailing hserved.isOpen h hroom hlong hshort hread hle (.done hpc hsession (hserved.congr _ b') hbehind') ?_
      rintro ⟨-, r', hpc'⟩
      rw [hpc] at hpc'
      cases r' <;> cases hpc'

end Server

end Phase

end Handshake

end AuthVideo
