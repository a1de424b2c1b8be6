import AuthVideo.Lemmas.HandshakePhases

/-!
# Theorems 72 and 73: the handshake ends, or a request is lost

However the bytes of the two sides are cut, the board comes to its stream unless the server reads a request together with what was
left of the one before: then the request stays in the reader, and both wait for ever.
-/

namespace AuthVideo

open Xop

namespace Handshake

/-- The log and the state of a run. -/
structure Shaken (log : List (HandshakeStep × HandshakeEvent)) (s : Handshake) : Prop where
  phase : Phase s (lastSent log)
  room : Room s
  long : ∀ text, lastSent log = some text → 23 < text.length
  lost : ReadTogether log ↔ Lost s

theorem lastSent_sent (log : List (HandshakeStep × HandshakeEvent)) (i : HandshakeStep) (text : Bytes) :
    lastSent (log ++ [(i, .sent text)]) = some text := by
  simp [lastSent]

theorem lastSent_read (log : List (HandshakeStep × HandshakeEvent)) (i : HandshakeStep) (bytes : Bytes) (events : List RtspEvent) :
    lastSent (log ++ [(i, .read bytes events)]) = lastSent log := by
  simp [lastSent]

theorem lastSent_received (log : List (HandshakeStep × HandshakeEvent)) (i : HandshakeStep) (bytes : Bytes) :
    lastSent (log ++ [(i, .received bytes)]) = lastSent log := by
  simp [lastSent]

/-- Only a read can lose a request. -/
theorem readTogether_iff (log : List (HandshakeStep × HandshakeEvent)) (i : HandshakeStep) (bytes : Bytes) (events : List RtspEvent) :
    ReadTogether (log ++ [(i, .read bytes events)]) ↔ Together (lastSent log) bytes := by
  unfold ReadTogether Together
  rw [lastSent_read]
  simp

section Run

variable {H : Bytes → Bytes} {log : List (HandshakeStep × HandshakeEvent)} {s : Handshake} {i : HandshakeStep}

/-- A step is not made, or it keeps the phases. -/
theorem Shaken.step (h : Shaken log s) (hwhole : i.Whole) :
    Handshake.step H i s = .error .blocked ∨
      ∃ event s', Handshake.step H i s = .ok (event, s') ∧ Shaken (log ++ [(i, event)]) s' := by
  cases i with
  | send =>
    rcases h.phase.send (H := H) h.room with hblocked | ⟨text, s', hstep, hphase, hroom, hlong, hnot⟩
    · exact Or.inl hblocked
    · refine Or.inr ⟨_, s', hstep, by rw [lastSent_sent]; exact hphase, hroom, ?_, iff_of_false ?_ hnot⟩
      · intro text' htext
        rw [lastSent_sent] at htext
        cases htext
        exact hlong
      · simp [ReadTogether]
  | read count a =>
    rcases h.phase.read (H := H) h.room h.long hwhole with
      hblocked | ⟨events, s', hstep, hphase, hroom, hiff⟩
    · exact Or.inl hblocked
    · refine Or.inr ⟨_, s', hstep, ?_, hroom, ?_, (readTogether_iff log _ _ events).trans hiff⟩
      · rw [lastSent_read]
        exact hphase
      · rw [lastSent_read]
        exact h.long
  | receive missing =>
    obtain rfl : missing = 0 := hwhole
    rcases h.phase.receive (H := H) h.room with hblocked | ⟨bytes, s', hstep, hphase, hroom, hnot⟩
    · exact Or.inl hblocked
    · refine Or.inr ⟨_, s', hstep, ?_, hroom, ?_, iff_of_false (by simp [ReadTogether]) hnot⟩
      · rw [lastSent_received]
        exact hphase
      · rw [lastSent_received]
        exact h.long

/-- The step rule in the form of the log rule. -/
theorem shaken_step (log : List (HandshakeStep × HandshakeEvent)) (s : Handshake) (i : HandshakeStep) (event : HandshakeEvent)
    (s' : Handshake) (hshaken : (∀ entry ∈ log, entry.1.Whole) → Shaken log s) (hstep : Handshake.step H i s = .ok (event, s'))
    (hall : ∀ entry ∈ log ++ [(i, event)], entry.1.Whole) : Shaken (log ++ [(i, event)]) s' := by
  rcases (hshaken fun entry hentry => hall entry (List.mem_append_left _ hentry)).step (H := H)
    (hall _ (List.mem_append_right log List.mem_cons_self)) with hblocked | ⟨event', s'', hstep', hshaken'⟩
  · rw [hblocked] at hstep
    cases hstep
  · rw [hstep'] at hstep
    cases hstep
    exact hshaken'

/-- The connection is made. -/
theorem shaken_start (buf : Bytes) (socket scheduler : ℕ) (method : Method) (channel : MediaChannelId) (transport : TransportMode) :
    Shaken [] (start buf socket scheduler (.new method channel transport)) where
  phase := .sends .describe ⟨rfl, rfl, by simp⟩ ⟨rfl, rfl, fun _ => ⟨rfl, rfl⟩, by simp [Round.answers], by simp [Round.answers],
    by simp [Round.answers]⟩ rfl ⟨atRequestLine_new method channel transport, Lines.unfinished_nil, Or.inl rfl⟩
  room := le_refl 768
  long := by simp [lastSent]
  lost := iff_of_false (by simp [ReadTogether]) (by
    rintro ⟨-, -, r, hpc⟩
    cases r <;> cases hpc)

/-- A run, as long as it goes on. -/
theorem shaken_run {buf : Bytes} {socket scheduler : ℕ} {method : Method} {channel : MediaChannelId} {transport : TransportMode}
    {steps : List HandshakeStep} (hwhole : ∀ i ∈ steps, i.Whole)
    (h : (run H buf socket scheduler (.new method channel transport) steps).2 = .ok s) :
    Shaken (run H buf socket scheduler (.new method channel transport) steps).1 s := by
  have hinputs := Machine.map_fst_run_prefix (Handshake.step H) steps (start buf socket scheduler (.new method channel transport))
  have hstart : (∀ entry ∈ ([] : List (HandshakeStep × HandshakeEvent)), entry.1.Whole) →
      Shaken [] (start buf socket scheduler (.new method channel transport)) :=
    fun _ => shaken_start buf socket scheduler method channel transport
  have hlog := Machine.run_log (fun log s => (∀ entry ∈ log, entry.1.Whole) → Shaken log s) (shaken_step (H := H)) hstart steps
  unfold run at h ⊢
  rcases hrun : Machine.run (Handshake.step H) steps (start buf socket scheduler (.new method channel transport)) with
    ⟨log, e | s'⟩ <;> rw [hrun] at h hlog hinputs <;> cases h
  exact hlog fun entry hentry => hwhole _ (hinputs.subset (List.mem_map_of_mem hentry))

/-- A step of the server is made where there are bytes for it. -/
theorem step_read_ne_blocked (hopen : s.server.isClosed = false) (h : s.toServer ≠ []) (count : ℕ) (a : RtspArrival) :
    Handshake.step H (.read count a) s ≠ .error .blocked := by
  have hne := bytes_ne_nil count a h
  unfold arrival at hne
  unfold Handshake.step
  simp only [hopen, Bool.or_false, decide_eq_true_eq]
  rw [if_neg hne]
  split <;> simp

/-- Both sides wait for ever where all is done and read, or a request is lost. -/
theorem stuck_iff {last : Option Bytes} (h : Phase s last) :
    Stuck H s ↔ (s.client.pc = .done ∧ s.toServer = []) ∨ Lost s := by
  have hopen : s.server.isClosed = false := by
    cases h with
    | sends r hboard hserved => exact hserved.isOpen
    | together r hboard hserved => exact hserved.isOpen
    | reading r hboard hserved => exact hserved.isOpen
    | answered r hcomes => exact hcomes.served.isOpen
    | done hpc hsession hserved => exact hserved.isOpen
  constructor
  · intro hstuck
    have hread : s.toServer = [] := by
      by_contra hne
      exact step_read_ne_blocked hopen hne 0 ⟨[], s.sessions, [], 0, fun _ => (0, 0), none, false, 0, []⟩ (hstuck _)
    cases h with
    | sends r hboard hserved htoClient hclean =>
      have hsend := hstuck .send
      simp [Handshake.step, hboard.send] at hsend
    | together r hboard hserved htoClient => exact Or.inr ⟨hread, htoClient, r, hboard.pc⟩
    | reading r hboard hserved htoClient => exact Or.inr ⟨hread, htoClient, r, hboard.pc⟩
    | answered r hcomes =>
      obtain ⟨board, hstep, -⟩ := hcomes.step (H := H)
      rw [hstuck (.receive 0)] at hstep
      cases hstep
    | done hpc => exact Or.inl ⟨hpc, hread⟩
  · intro hwaits i
    have hnone : s.client.send = none := by
      rcases hwaits with ⟨hpc, -⟩ | ⟨-, -, hpc⟩
      · exact send_eq_none (Or.inr hpc)
      · exact send_eq_none (Or.inl hpc)
    have hread : s.toServer = [] := by
      rcases hwaits with ⟨-, hread⟩ | ⟨hread, -⟩ <;> exact hread
    cases i with
    | send => exact step_send_of_none hnone
    | read count a => simp [Handshake.step, hread]
    | receive missing =>
      rcases hwaits with ⟨hpc, -⟩ | ⟨-, htoClient, -⟩
      · exact step_receive_of_none (receive_eq_none (Or.inr hpc)) missing
      · exact step_receive_of_nil hopen htoClient missing

/-- A board that is done has its stream. -/
theorem streaming_of_done {last : Option Bytes} (h : Phase s last) (hdone : s.client.pc = .done) : Streaming s := by
  cases h with
  | sends r hboard =>
    rw [hboard.pc] at hdone
    cases r <;> cases hdone
  | together r hboard =>
    rw [hboard.pc] at hdone
    cases r <;> cases hdone
  | reading r hboard =>
    rw [hboard.pc] at hdone
    cases r <;> cases hdone
  | answered r hcomes =>
    rw [hcomes.pc] at hdone
    cases r <;> cases hdone
  | done hpc hsession hserved =>
    obtain ⟨e, session, hstream, hopen, -⟩ := hserved.joined (by decide)
    obtain ⟨e₁, hstream₁, -, hudp, hrtp, hrtcp⟩ := hserved.ready (by decide)
    obtain ⟨e₂, hstream₂, hplay⟩ := hserved.on (le_refl 3)
    obtain rfl := Option.some.inj (hstream₁.symm.trans hstream)
    obtain rfl := Option.some.inj (hstream₂.symm.trans hstream)
    refine ⟨e₂, hstream, hplay, hudp, hopen, hrtp, hrtcp, ?_⟩
    rw [hsession]
    unfold addressOf
    rw [hstream]
    rfl

/-! ## Rounds -/

/-- A request that is read up to its end, or up to the empty line at its end, and is answered. -/
theorem round (count : ℕ) (a : RtspArrival) {r : Round} (hboard : Sends r (addressOf s.server) s.client) (hserved : Served r.answers s.server s.sessions)
    (htoClient : s.toClient = []) (hfresh : AtRequestLine s.server.request) (hreadable : s.server.readBuffer.readable = [])
    (htoServer : s.toServer = []) (hroom : Room s) (hwhole : (HandshakeStep.read count a).Whole) {t : Bytes}
    (ht : t = [] ∨ t = [13, 10])
    (hrest : (r.exchange (addressOf s.server)).text.drop
      ((r.exchange (addressOf s.server)).text.take (min (count + 1) maxBytesPerRead)).length = t) :
    ∃ s', (Machine.run (Handshake.step H) [.send, .read count a, .receive 0] s).2 = .ok s' ∧
      Goes (addressOf s'.server) s'.client r ∧ Served (r.answers + 1) s'.server s'.sessions ∧ s'.toClient = [] ∧ s'.toServer = t ∧
      (r ≠ .play → AtRequestLine s'.server.request ∧ s'.server.readBuffer.readable = []) ∧ Room s' := by
  have hroom₁ := hroom.send hboard
  have hsplit := length_bytes_add (asked r s) count a
  have hrest₁ : rest count (asked r s) = t := by
    unfold rest asked
    rw [htoServer]
    exact hrest
  have hreading : Reading (r.exchange (addressOf s.server)) s.server ((arrival count a (asked r s)).bytes ++ rest count (asked r s)) := by
    rw [append_rest]
    refine .line hfresh ?_
    unfold asked
    rw [hreadable, htoServer]
    rfl
  rcases hreading.read (H := H) (r.understood _)
    (readable_arrival (s := asked r s) count a hserved.isOpen hroom₁ (asked_ne_nil r)) with
    ⟨r', b', -, -, hcut, hreading'⟩ | ⟨channel, transport, m, b', hle, hrest', hcut, hanswer⟩
  · rw [hrest₁] at hreading'
    rcases ht with rfl | rfl
    · exact absurd rfl (hreading'.ne_nil hcut)
    · exact absurd rfl (ne_end_of_reading hreading' hcut)
  · obtain ⟨events, s₂, hstep₂, hcomes, htoServer₂, hclient₂, hle₂⟩ :=
      comes_of_answers (s := asked r s) hboard.awaits hserved htoClient (asked_ne_nil r) hwhole hle hrest' hcut hanswer
    obtain ⟨board, hstep₃, hgoes⟩ := hcomes.step (H := H)
    obtain ⟨-, hleft, -⟩ := Phase.next none hgoes hcomes.served hcomes.clean hcomes.behind
    rw [hrest₁] at htoServer₂
    refine ⟨{ s₂ with client := board, toClient := [] }, ?_, hgoes, hcomes.served, rfl, htoServer₂, fun hr => ?_, ?_⟩
    · rw [Machine.run_cons_ok (step_send hboard), Machine.run_cons_ok hstep₂, Machine.run_cons_ok hstep₃]
      rfl
    · have hclean := hcomes.clean hr
      have hbytes := hclean.bytes
      rw [htoServer₂] at hbytes
      refine ⟨hclean.fresh, ?_⟩
      rcases ht with rfl | rfl
      · rw [List.append_nil] at hbytes
        rcases hbytes with hbytes | hbytes
        · exact hbytes
        · have hcut' := hclean.cut
          rw [hbytes] at hcut'
          exact absurd hcut' (Lines.not_unfinished_joined (by decide) [] [])
      · rcases hbytes with hbytes | hbytes
        · simp at hbytes
        · simpa using hbytes
    · rw [hrest₁] at hsplit
      unfold Room at hroom₁ ⊢
      dsimp only
      rw [htoServer₂, hleft]
      have hpc : left (asked r s).client.pc = left r.await := rfl
      omega

end Run

section Ends

variable (md5HashHex : Bytes → Bytes) (buf : Bytes) (socket scheduler : ℕ) (method : Method) (channel : MediaChannelId)
  (transport : TransportMode) {a₁ a₂ a₃ : RtspArrival}

/-- The server in front of the first request. -/
theorem served_start : Served 0 (RtspConnection.new liveServer socket scheduler (.new method channel transport)) liveServer :=
  ⟨rfl, rfl, fun _ => ⟨rfl, rfl⟩, by simp, by simp, by simp⟩

/-- A server that reads each request whole. -/
theorem ends (h₁ : (HandshakeStep.read 4095 a₁).Whole) (h₂ : (HandshakeStep.read 4095 a₂).Whole)
    (h₃ : (HandshakeStep.read 4095 a₃).Whole) :
    ∃ s, (run md5HashHex buf socket scheduler (.new method channel transport)
      [.send, .read 4095 a₁, .receive 0, .send, .read 4095 a₂, .receive 0, .send, .read 4095 a₃, .receive 0]).2 = .ok s ∧
      s.client.pc = .done ∧ Streaming s := by
  have hstart := shaken_start buf socket scheduler method channel transport
  have hserved := served_start socket scheduler method channel transport
  have hall : ∀ (address : UInt16) (r : Round), (r.exchange address).text.drop
      ((r.exchange address).text.take (min (4095 + 1) maxBytesPerRead)).length = [] := by
    intro address r
    have hshort := (r.understood address).short
    rw [List.drop_eq_nil_iff, List.take_of_length_le (hshort.trans (by simp [maxBytesPerRead]))]
  obtain ⟨s₁, hrun₁, hgoes₁, hserved₁, htoClient₁, htoServer₁, hclean₁, hroom₁⟩ := round (H := md5HashHex) 4095 a₁
    (s := start buf socket scheduler (.new method channel transport)) (r := .describe) ⟨rfl, rfl, by simp⟩ hserved rfl
    (atRequestLine_new method channel transport) rfl rfl hstart.room h₁ (Or.inl rfl) (hall _ _)
  obtain ⟨hfresh₁, hreadable₁⟩ := hclean₁ (by simp)
  obtain ⟨s₂, hrun₂, hgoes₂, hserved₂, htoClient₂, htoServer₂, hclean₂, hroom₂⟩ := round (H := md5HashHex) 4095 a₂
    (r := .setup) hgoes₁ hserved₁ htoClient₁ hfresh₁ hreadable₁ htoServer₁ hroom₁ h₂ (Or.inl rfl) (hall _ _)
  obtain ⟨hfresh₂, hreadable₂⟩ := hclean₂ (by simp)
  obtain ⟨s₃, hrun₃, hgoes₃, -⟩ := round (H := md5HashHex) 4095 a₃
    (r := .play) hgoes₂ hserved₂ htoClient₂ hfresh₂ hreadable₂ htoServer₂ hroom₂ h₃ (Or.inl rfl) (hall _ _)
  have hrun : (run md5HashHex buf socket scheduler (.new method channel transport)
      ([.send, .read 4095 a₁, .receive 0] ++ ([.send, .read 4095 a₂, .receive 0] ++ [.send, .read 4095 a₃, .receive 0]))).2 = .ok s₃ := by
    unfold run
    rw [Machine.run_append_of_ok hrun₁, Machine.run_append_of_ok hrun₂]
    exact hrun₃
  have hsteps : ∀ i ∈ ([.send, .read 4095 a₁, .receive 0] ++ ([.send, .read 4095 a₂, .receive 0] ++
      [.send, .read 4095 a₃, .receive 0]) : List HandshakeStep), i.Whole := by
    simp only [List.cons_append, List.nil_append, List.forall_mem_cons, List.not_mem_nil, false_implies, implies_true, and_true]
    exact ⟨True.intro, h₁, rfl, True.intro, h₂, rfl, True.intro, h₃, rfl⟩
  exact ⟨s₃, hrun, hgoes₃.1, streaming_of_done (shaken_run hsteps hrun).phase hgoes₃.1⟩

/-- One that reads the first request up to its empty line, and that with the second. -/
theorem loses (h₁ : (HandshakeStep.read 80 a₁).Whole) :
    ∃ s, (run md5HashHex buf socket scheduler (.new method channel transport)
      [.send, .read 80 a₁, .receive 0, .send, .read 4095 a₂]).2 = .ok s ∧ s.client.pc ≠ .done ∧ Stuck md5HashHex s := by
  have hstart := shaken_start buf socket scheduler method channel transport
  have hserved := served_start socket scheduler method channel transport
  obtain ⟨s₁, hrun₁, hgoes₁, hserved₁, htoClient₁, htoServer₁, hclean₁, hroom₁⟩ := round (H := md5HashHex) 80 a₁
    (s := start buf socket scheduler (.new method channel transport)) (r := .describe) ⟨rfl, rfl, by simp⟩
    hserved rfl (atRequestLine_new method channel transport) rfl rfl hstart.room
    h₁ (Or.inr rfl) rfl
  obtain ⟨hfresh₁, hreadable₁⟩ := hclean₁ (by simp)
  have hsetup : Sends .setup (addressOf s₁.server) s₁.client := hgoes₁
  have hbytes : s₁.server.readBuffer.readable ++ (asked .setup s₁).toServer =
      13 :: 10 :: (Round.setup.exchange (addressOf s₁.server)).text := by
    unfold asked
    rw [hreadable₁, htoServer₁]
    rfl
  have hcut : Lines.Unfinished 13 s₁.server.readBuffer.readable := by
    rw [hreadable₁]
    exact Lines.unfinished_nil
  obtain ⟨events, s₂, hstep, hphase, -, hiff⟩ : Reads md5HashHex (asked .setup s₁)
      (some (Round.setup.exchange (addressOf s₁.server)).text) 4095 a₂ :=
    reads_together hsetup.awaits hserved₁ htoClient₁ rfl hfresh₁ hcut hbytes (asked_ne_nil .setup) (hroom₁.send hsetup)
  have hread : (arrival 4095 a₂ (asked .setup s₁)).bytes = 13 :: 10 :: (Round.setup.exchange (addressOf s₁.server)).text := by
    rw [hreadable₁, List.nil_append] at hbytes
    have hshort := (Round.setup.understood (addressOf s₁.server)).short
    unfold arrival
    dsimp only
    rw [hbytes, List.take_of_length_le]
    simp only [List.length_cons, maxBytesPerRead]
    omega
  have hlost : Lost s₂ := by
    refine hiff.mp ⟨_, rfl, ?_, ?_⟩
    · rw [hread]
      exact ⟨[13, 10], rfl⟩
    · rw [hread]
      intro heq
      have hlen := congrArg List.length heq
      simp only [List.length_cons] at hlen
      omega
  refine ⟨s₂, ?_, ?_, (stuck_iff hphase).mpr (Or.inr hlost)⟩
  · have hrun : (Machine.run (step md5HashHex) [.send, .read 4095 a₂] s₁).2 = .ok s₂ := by
      rw [Machine.run_cons_ok (step_send hsetup), Machine.run_cons_ok hstep]
      rfl
    have happend := Machine.run_append_of_ok hrun₁ [.send, .read 4095 a₂]
    unfold run
    rw [show [.send, .read 80 a₁, .receive 0, .send, .read 4095 a₂] =
      ([.send, .read 80 a₁, .receive 0] ++ [.send, .read 4095 a₂] : List HandshakeStep) from rfl, happend]
    exact hrun
  · obtain ⟨-, -, r, hpc⟩ := hlost
    rw [hpc]
    cases r <;> simp [Round.await]

end Ends

end Handshake

open Handshake

/-- Theorem 72 (ends or loses). Where every `recv` of the board gives all that has come, and the server finds two ports and has an
address of IPv4, neither side fails; a board that is done has its stream; and both wait for ever exactly where the board is done,
or where the server read a whole request with bytes in front of it. -/
theorem handshake_ends_or_loses (md5HashHex : Bytes → Bytes) (buf : Bytes) (socket scheduler : ℕ) (method : Method)
    (channel : MediaChannelId) (transport : TransportMode) (steps : List HandshakeStep) (hwhole : ∀ i ∈ steps, i.Whole) :
    (∀ f, (Handshake.run md5HashHex buf socket scheduler (.new method channel transport) steps).2 ≠ .error (.fault f)) ∧
      ∀ s, (Handshake.run md5HashHex buf socket scheduler (.new method channel transport) steps).2 = .ok s →
        (s.client.pc = .done → Handshake.Streaming s) ∧
        (Handshake.Stuck md5HashHex s ↔ (s.client.pc = .done ∧ s.toServer = []) ∨
          Handshake.ReadTogether (Handshake.run md5HashHex buf socket scheduler (.new method channel transport) steps).1) := by
  constructor
  · intro f herror
    obtain ⟨earlier, i, later, s, rfl, hrun, hstep⟩ := Machine.of_run_error herror
    have hshaken := Handshake.shaken_run (fun j hj => hwhole j (List.mem_append_left _ hj)) hrun
    rcases hshaken.step (H := md5HashHex) (hwhole i (by simp)) with hblocked | ⟨event, s', hok, -⟩
    · rw [hstep] at hblocked
      cases hblocked
    · rw [hstep] at hok
      cases hok
  · intro s hrun
    have hshaken := Handshake.shaken_run hwhole hrun
    refine ⟨Handshake.streaming_of_done hshaken.phase, ?_⟩
    rw [Handshake.stuck_iff hshaken.phase, hshaken.lost]

/-- What the server finds at a board. -/
def boardArrival : RtspArrival := ⟨[], liveServer, [], 0x2A10, fun _ => (0, 0), some (6970, 6971), false, 1700000000, cstr "10.25.9.28"⟩

/-- A board that has sent its first request, and the server that has read a part of it. -/
theorem handshake_ends_or_loses_part :
    (∀ f, (Handshake.run id [] 7 0 (.new .none 0 .rtpOverUdp) [.send, .read 50 boardArrival]).2 ≠ .error (.fault f)) ∧
      ∀ s, (Handshake.run id [] 7 0 (.new .none 0 .rtpOverUdp) [.send, .read 50 boardArrival]).2 = .ok s →
        (s.client.pc = .done → Handshake.Streaming s) ∧
        (Handshake.Stuck id s ↔ (s.client.pc = .done ∧ s.toServer = []) ∨
          Handshake.ReadTogether (Handshake.run id [] 7 0 (.new .none 0 .rtpOverUdp) [.send, .read 50 boardArrival]).1) :=
  handshake_ends_or_loses id [] 7 0 .none 0 .rtpOverUdp [.send, .read 50 boardArrival] (by simp [HandshakeStep.Whole, boardArrival, cstr])

/-- Theorem 73 (both ends). Both ends come about, whatever two ports the server finds and whatever its time and its address of IPv4: a
server that reads each request whole leads the board to its stream, and one that reads the first request up to its empty line and
then the rest with the second leaves both waiting for ever. -/
theorem both_ends_come_about (md5HashHex : Bytes → Bytes) (buf : Bytes) (socket scheduler : ℕ) (method : Method)
    (channel : MediaChannelId) (transport : TransportMode) (a₁ a₂ a₃ : RtspArrival)
    (hwhole : ∀ a ∈ [a₁, a₂, a₃], (HandshakeStep.read 4095 a).Whole) :
    (∃ s, (Handshake.run md5HashHex buf socket scheduler (.new method channel transport)
        [.send, .read 4095 a₁, .receive 0, .send, .read 4095 a₂, .receive 0, .send, .read 4095 a₃, .receive 0]).2 = .ok s ∧
        s.client.pc = .done ∧ Handshake.Streaming s) ∧
      ∃ s, (Handshake.run md5HashHex buf socket scheduler (.new method channel transport)
        [.send, .read 80 a₁, .receive 0, .send, .read 4095 a₂]).2 = .ok s ∧ s.client.pc ≠ .done ∧ Handshake.Stuck md5HashHex s := by
  have h₁ := hwhole a₁ (by simp)
  have h₂ := hwhole a₂ (by simp)
  have h₃ := hwhole a₃ (by simp)
  exact ⟨ends md5HashHex buf socket scheduler method channel transport h₁ h₂ h₃,
    loses md5HashHex buf socket scheduler method channel transport h₁⟩

/-- The same server all the time. -/
theorem both_ends_come_about_board :
    (∃ s, (Handshake.run id [] 7 0 (.new .none 0 .rtpOverUdp) [.send, .read 4095 boardArrival, .receive 0, .send, .read 4095 boardArrival,
        .receive 0, .send, .read 4095 boardArrival, .receive 0]).2 = .ok s ∧ s.client.pc = .done ∧ Handshake.Streaming s) ∧
      ∃ s, (Handshake.run id [] 7 0 (.new .none 0 .rtpOverUdp) [.send, .read 80 boardArrival, .receive 0, .send,
        .read 4095 boardArrival]).2 = .ok s ∧ s.client.pc ≠ .done ∧ Handshake.Stuck id s :=
  both_ends_come_about id [] 7 0 .none 0 .rtpOverUdp boardArrival boardArrival boardArrival
    (by simp [HandshakeStep.Whole, boardArrival, cstr])

end AuthVideo
