import AuthVideo.Lemmas.Answered
import AuthVideo.Lemmas.HonestRun

/-!
# Theorem 5: what a key confirmation is checked against

The session of the centre is not tied to a connection and is not used up. A key confirmation that is accepted follows an
admission, on its own connection or on an earlier one, and is checked against the pseudonym and the nonce of the last one, with
the parameter of the last one or of an authentication request after it.
-/

namespace AuthVideo

/-- An entry of the log: a request with its answer. -/
abbrev Entry := Message × Response

/-- An authentication request answered with status 200. -/
def Entry.Admitted (entry : Entry) : Prop := entry.1.request.action = some "auth_request" ∧ entry.2.status = 200

/-- A key confirmation answered with status 200. -/
def Entry.Confirmed (entry : Entry) : Prop :=
  entry.1.request.action = some "SharedKey_Gen_response" ∧ entry.2.status = 200

/-- The session law: every accepted key confirmation has an admission of its own, earlier on its connection. -/
def SessionBound (log : List Entry) : Prop :=
  ∃ admission : Nat → Nat,
    (∀ i entry, log[i]? = some entry → entry.Confirmed →
      ∃ other, admission i < i ∧ log[admission i]? = some other ∧ other.Admitted ∧ other.1.client = entry.1.client) ∧
    ∀ i j entry other, log[i]? = some entry → log[j]? = some other → entry.Confirmed → other.Confirmed →
      admission i = admission j → i = j

/-! ## The main loop as one run -/

/-- The requests of all connections, in the order in which they are served. -/
def tagged : Nat → List (List (Request × Nat)) → List Message
  | _, [] => []
  | client, requests :: connections =>
    requests.map (fun (request, drawn) => ⟨client, request, drawn⟩) ++ tagged (client + 1) connections

/-- The main loop serves the requests of all connections as if they came on one. -/
theorem Ctx.acceptLoop_eq (Γ : Ctx) (C : Center) (client : Nat) (connections : List (List (Request × Nat))) (s : Server) :
    Γ.acceptLoop C client connections s = Machine.run (Γ.serve C) (tagged client connections) s := by
  induction connections generalizing client s with
  | nil => rfl
  | cons requests connections ih =>
    rw [tagged, Machine.run_append, Ctx.acceptLoop]
    simp only [ih, Ctx.handleClient]
    rcases Machine.run (Γ.serve C) _ s with ⟨log, e | s'⟩ <;> rfl

theorem le_client_of_mem_tagged {client : Nat} {connections : List (List (Request × Nat))} {message : Message}
    (h : message ∈ tagged client connections) : client ≤ message.client := by
  induction connections generalizing client with
  | nil => cases h
  | cons requests connections ih =>
    rcases List.mem_append.mp h with h | h
    · obtain ⟨request, -, rfl⟩ := List.mem_map.mp h
      exact Nat.le_refl _
    · exact Nat.le_of_succ_le (ih h)

/-- Connections are served one after the other. -/
theorem pairwise_tagged (client : Nat) (connections : List (List (Request × Nat))) :
    (tagged client connections).Pairwise fun m n => m.client ≤ n.client := by
  induction connections generalizing client with
  | nil => exact List.Pairwise.nil
  | cons requests connections ih =>
    refine List.pairwise_append.mpr ⟨?_, ih (client + 1), fun m hm n hn => ?_⟩
    · exact List.pairwise_map.mpr (List.pairwise_of_forall fun _ _ => Nat.le_refl _)
    · obtain ⟨request, -, rfl⟩ := List.mem_map.mp hm
      exact Nat.le_of_succ_le (le_client_of_mem_tagged hn)

/-! ## The session and the log -/

/-- The last admission of a log, with the entries after it. -/
def LastAdmission (log : List Entry) (entry : Entry) (after : List Entry) : Prop :=
  ∃ before, log = before ++ entry :: after ∧ entry.Admitted ∧ ∀ other ∈ after, ¬other.Admitted

/-- An authentication request, whatever its answer, whose field `QA` the centre reads as this parameter. -/
def Center.Brings (C : Center) (entry : Entry) (A : Int) : Prop :=
  entry.1.request.action = some "auth_request" ∧
    ∃ QA, entry.1.request.get "QA" = some QA ∧ A = chebyshevMatrix C.e QA C.N

/-- The session is the one of the last admission, and unset while there is none. Its parameter may also be that of a later
request, which `user_auth` stores before it refuses the password. -/
def Center.SessionOf (C : Center) (log : List Entry) (s : Server) : Prop :=
  (s.a = none ∧ s.QID = none) ∨
    ∃ admission after A, LastAdmission log admission after ∧ s.a = some (admission.1.drawn : Int) ∧
      s.QID = admission.1.request.get "QID" ∧ s.A = some A ∧ ∃ source ∈ admission :: after, C.Brings source A

/-- An entry that is no admission leaves the last admission. -/
theorem LastAdmission.append {log after : List Entry} {entry other : Entry} (h : LastAdmission log entry after)
    (hother : ¬other.Admitted) : LastAdmission (log ++ [other]) entry (after ++ [other]) := by
  obtain ⟨before, rfl, hentry, hafter⟩ := h
  refine ⟨before, by simp, hentry, ?_⟩
  intro x hx
  rcases List.mem_append.mp hx with hx | hx
  · exact hafter x hx
  · rwa [List.mem_singleton.mp hx]

/-- An entry that is no admission keeps the relation, if it leaves the nonce and the pseudonym and its request brings the
parameter, should that be another. -/
theorem Center.SessionOf.keep {C : Center} {log : List Entry} {s s' : Server} {other : Entry} (h : C.SessionOf log s)
    (ha : s'.a = s.a) (hQID : s'.QID = s.QID) (hA : s'.A = s.A ∨ ∃ A, s'.A = some A ∧ C.Brings other A)
    (hother : ¬other.Admitted) : C.SessionOf (log ++ [other]) s' := by
  rcases h with ⟨hnone, hnoneQ⟩ | ⟨admission, after, A, hlast, hdrawn, hpseudonym, hstored, source, hmem, hbrings⟩
  · exact .inl ⟨ha.trans hnone, hQID.trans hnoneQ⟩
  · have hlast' := hlast.append hother
    rcases hA with hA | ⟨A', hA', hother'⟩
    · exact .inr ⟨admission, _, A, hlast', ha.trans hdrawn, hQID.trans hpseudonym, hA.trans hstored, source,
        List.mem_append_left [other] hmem, hbrings⟩
    · exact .inr ⟨admission, _, A', hlast', ha.trans hdrawn, hQID.trans hpseudonym, hA', other,
        by simp, hother'⟩

/-- Every step keeps the relation of the session to the log. -/
theorem Center.SessionOf.step {Γ : Ctx} {C : Center} {log : List Entry} {s s' : Server} {message : Message}
    {response : Response} (h : C.SessionOf log s) (hok : Γ.serve C message s = .ok (response, s')) :
    C.SessionOf (log ++ [(message, response)]) s' := by
  cases Ctx.processRequest_answered hok with
  | registered reg person hact =>
    exact h.keep rfl rfl (.inl rfl) fun hentry => by simp [Entry.Admitted, hact] at hentry
  | refused text A hact hA =>
    refine h.keep rfl rfl ?_ fun hentry => by simp [Entry.Admitted] at hentry
    rcases hA with hA | ⟨QA, hQA, hA⟩
    · exact .inl hA
    · exact .inr ⟨_, hA, hact, QA, hQA, rfl⟩
  | admitted QID QA HM2 hact hQID hQA =>
    exact .inr ⟨_, [], _, ⟨log, rfl, ⟨hact, rfl⟩, by simp⟩, rfl, hQID.symm, rfl, _, List.mem_singleton.mpr rfl, hact, QA,
      hQA, rfl⟩
  | confirmed A a N2 TC QID2 TC1 KS QID3 HM5 hact =>
    exact h.keep rfl rfl (.inl rfl) fun hentry => by simp [Entry.Admitted, hact] at hentry
  | unknown =>
    exact h.keep rfl rfl (.inl rfl) fun hentry => by simp [Entry.Admitted] at hentry

/-- The pseudonym and the cubic test of a key confirmation, against the request and the nonce of an admission. The nonce of the
device is what its field `N2` hides under the mask of the parameter `A`. -/
structure Center.ChecksAgainst (C : Center) (entry admission : Entry) (A : Int) : Prop where
  pseudonym : ∃ QID2, entry.1.request.get "QID2" = some QID2 ∧
    admission.1.request.get "QID" = some (chebyshevMatrix C.e QID2 C.N)
  nonce : ∃ N2 TC, entry.1.request.get "N2" = some N2 ∧ entry.1.request.get "TC" = some TC ∧
    let a : Int := admission.1.drawn
    let b1 := Int.xor (chebyshevMatrix A C.pk C.N) N2
    (chebyshevMatrix a C.pk C.N * chebyshevMatrix a C.pk C.N +
        chebyshevMatrix b1 C.pk C.N * chebyshevMatrix b1 C.pk C.N + TC * TC) % C.N =
      (2 * chebyshevMatrix a C.pk C.N * chebyshevMatrix b1 C.pk C.N * TC + 1) % C.N

/-! ## Replays -/

/-- The requests of an honest run, its last one sent again on any connection, are all answered as in the run. -/
theorem Ctx.Honest.replays {Γ : Ctx} {C : Center} {people : JsonFile} {uid pw Bio L : Nat}
    (h : Γ.Honest C people uid pw Bio L) (a b : Nat) :
    ∃ k m1 r1 m2 r2 m3 r3, Γ.honestTranscript C k uid pw Bio L a b = [(m1, r1), (m2, r2), (m3, r3)] ∧
      m1.action = some "register" ∧ (m2.action = some "auth_request" ∧ r2.status = 200) ∧
      (m3.action = some "SharedKey_Gen_response" ∧ r3.status = 200) ∧
      ∀ client, (Machine.run (Γ.serve C) [⟨0, m1, L⟩, ⟨0, m2, a⟩, ⟨0, m3, 0⟩, ⟨client, m3, 0⟩] (Server.start people)).1 =
        [(⟨0, m1, L⟩, r1), (⟨0, m2, a⟩, r2), (⟨0, m3, 0⟩, r3), (⟨client, m3, 0⟩, r3)] := by
  obtain ⟨k, hk, hrecover⟩ := h.index
  have hregister := Ctx.Honest.register (s := Server.start people) h hk
  have hauth := Ctx.Honest.authenticate (s := Server.start people) h hrecover a
  have hconfirm := h.confirm hrecover (C.sent_lt k (Γ.pseudonym uid L Bio)) (s :=
      { Γ.registeredServer C uid pw Bio L (Server.start people) with
        A := some (Γ.parameter uid pw Bio L : Int), a := some (a : Int),
        QID := some (C.sent k (Γ.pseudonym uid L Bio) : Int) }) rfl (a := a) rfl rfl b 0
  simp only at hauth hconfirm
  refine ⟨k, _, _, _, _, _, _, rfl, rfl, ⟨rfl, rfl⟩, ⟨rfl, rfl⟩, ?_⟩
  intro client
  simp only [Machine.run, Ctx.serve, hregister, hauth, hconfirm]

/-- Two accepted key confirmations after one admission break the session law. -/
theorem not_sessionBound_replay {e0 e1 e2 e3 : Entry} (h0 : ¬e0.Admitted) (h2 : ¬e2.Admitted) (hc2 : e2.Confirmed)
    (hc3 : e3.Confirmed) : ¬SessionBound [e0, e1, e2, e3] := by
  rintro ⟨admission, hadmission, hinj⟩
  obtain ⟨x, hlt2, hx, hxadm, -⟩ := hadmission 2 e2 rfl hc2
  obtain ⟨y, hlt3, hy, hyadm, -⟩ := hadmission 3 e3 rfl hc3
  have hne : ∀ (i : Nat) (z : Entry), [e0, e1, e2, e3][i]? = some z → z.Admitted → i ≠ 0 ∧ i ≠ 2 := by
    rintro i z hz hadm
    constructor
    · rintro rfl
      exact h0 (Option.some.inj hz ▸ hadm)
    · rintro rfl
      exact h2 (Option.some.inj hz ▸ hadm)
  obtain ⟨hx0, -⟩ := hne _ x hx hxadm
  obtain ⟨hy0, hy2⟩ := hne _ y hy hyadm
  have hsame : admission 2 = admission 3 := by omega
  exact absurd (hinj 2 3 e2 e3 rfl rfl hc2 hc3 hsame) (by decide)

/-! ## The theorem -/

/-- Theorem 5 (sessions). In every run of the main loop, every accepted key confirmation follows an admission, on its own
connection or an earlier one, and is checked against the last admission before it, with the parameter that this admission or a
later authentication request brought. -/
theorem confirmation_follows_admission (Γ : Ctx) (C : Center) (people : JsonFile)
    (connections : List (List (Request × Nat))) (earlier later : List Entry) (entry : Entry)
    (hlog : (Γ.acceptLoop C 0 connections (Server.start people)).1 = earlier ++ entry :: later)
    (hconfirmed : entry.Confirmed) :
    ∃ admission after A, LastAdmission earlier admission after ∧ admission.1.client ≤ entry.1.client ∧
      (∃ source ∈ admission :: after, C.Brings source A) ∧ C.ChecksAgainst entry admission A := by
  obtain ⟨message, response⟩ := entry
  rw [Ctx.acceptLoop_eq] at hlog
  obtain ⟨s₁, s₂, hsession, hok⟩ := Machine.run_history C.SessionOf
    (fun log s i o s' h hstep => h.step hstep) (show C.SessionOf [] _ from .inl ⟨rfl, rfl⟩) hlog
  obtain ⟨hact, hstatus⟩ : message.request.action = some "SharedKey_Gen_response" ∧ response.status = 200 := hconfirmed
  cases Ctx.processRequest_answered hok with
  | registered _ _ hact' => simp [hact] at hact'
  | refused => exact absurd (show 400 = 200 from hstatus) (by decide)
  | admitted _ _ _ hact' => simp [hact] at hact'
  | unknown => exact absurd (show 400 = 200 from hstatus) (by decide)
  | confirmed A a N2 TC QID2 TC1 KS QID3 HM5 hact' hA ha hN2 hTC hQID2 hQID hnonce hKS =>
    rcases hsession with ⟨hnone, -⟩ | ⟨admission, after, A', hlast, hdrawn, hpseudonym, hstored, hsource⟩
    · rw [hnone] at ha
      cases ha
    · rw [hdrawn, Option.some.injEq] at ha
      rw [hstored, Option.some.injEq] at hA
      subst ha hA
      refine ⟨admission, after, A', hlast, ?_, hsource, ⟨QID2, hQID2, hpseudonym.symm.trans hQID⟩, N2, TC, hN2, hTC, hnonce⟩
      -- the log keeps the order of the requests, and these are in the order of their connections
      obtain ⟨before, rfl, -, -⟩ := hlast
      have hprefix := Machine.map_fst_run_prefix (Γ.serve C) (tagged 0 connections) (Server.start people)
      rw [hlog] at hprefix
      have hordered := (pairwise_tagged 0 connections).sublist hprefix.sublist
      simp only [List.map_append, List.map_cons, List.append_assoc, List.cons_append] at hordered
      have hrest := (List.pairwise_append.mp hordered).2.1
      exact (List.pairwise_cons.mp hrest).1 message (by simp)

/-- The last request of an honest run, sent again on the next connection, is accepted against the admission of the run, the
only authentication request there is. -/
theorem confirmation_follows_admission_replayed :
    ∃ (entry admission : Entry) (A : Int), entry.Confirmed ∧ entry.1.client = 1 ∧ admission.Admitted ∧
      admission.1.client = 0 ∧ sampleCenter.Brings admission A ∧ sampleCenter.ChecksAgainst entry admission A := by
  obtain ⟨k, m1, r1, m2, r2, m3, r3, -, hm1, -, hc3, hrun⟩ := sampleHonest.replays 5 6
  obtain ⟨admission, after, A, ⟨before, hsplit, hentry, -⟩, -, ⟨source, hmem, hbrings⟩, hchecks⟩ :=
    confirmation_follows_admission sampleCtx sampleCenter none [[(m1, 4), (m2, 5), (m3, 0)], [(m3, 0)]]
      [(⟨0, m1, 4⟩, r1), (⟨0, m2, 5⟩, r2), (⟨0, m3, 0⟩, r3)] [] (⟨1, m3, 0⟩, r3)
      ((congrArg Prod.fst (Ctx.acceptLoop_eq _ _ _ _ _)).trans (hrun 1)) hc3
  -- neither the registration nor the key confirmation is an authentication request
  have honly : ∀ x ∈ before ++ admission :: after, x.1.request.action = some "auth_request" → x = (⟨0, m2, 5⟩, r2) := by
    rw [← hsplit]
    intro x hx hact
    simp only [List.mem_cons, List.not_mem_nil, or_false] at hx
    rcases hx with rfl | rfl | rfl
    · simp [hm1] at hact
    · rfl
    · simp [hc3.1] at hact
  have hsource := honly source (List.mem_append_right before hmem) hbrings.1
  have hadmission := honly admission (by simp) hentry.1
  subst hadmission hsource
  exact ⟨(⟨1, m3, 0⟩, r3), (⟨0, m2, 5⟩, r2), A, hc3, rfl, hentry, rfl, hbrings, hchecks⟩

/-- At the sample centre, the last request of an honest run is accepted again, on the connection of the run and on the next
one. -/
theorem replay_breaks_sessions :
    ∃ k m1 r1 m2 r2 m3 r3, sampleCtx.honestTranscript sampleCenter k 1 2 3 4 5 6 = [(m1, r1), (m2, r2), (m3, r3)] ∧
      ¬SessionBound (sampleCtx.acceptLoop sampleCenter 0 [[(m1, 4), (m2, 5), (m3, 0), (m3, 0)]] (Server.start none)).1 ∧
      ¬SessionBound (sampleCtx.acceptLoop sampleCenter 0 [[(m1, 4), (m2, 5), (m3, 0)], [(m3, 0)]] (Server.start none)).1 := by
  obtain ⟨k, m1, r1, m2, r2, m3, r3, htranscript, hm1, -, hc3, hrun⟩ := sampleHonest.replays 5 6
  have hnot : ∀ client, ¬SessionBound
      [(⟨0, m1, 4⟩, r1), (⟨0, m2, 5⟩, r2), (⟨0, m3, 0⟩, r3), (⟨client, m3, 0⟩, r3)] := fun client =>
    not_sessionBound_replay (by simp [Entry.Admitted, hm1]) (by simp [Entry.Admitted, hc3.1]) hc3 hc3
  refine ⟨k, m1, r1, m2, r2, m3, r3, htranscript, ?_, ?_⟩
  · rw [Ctx.acceptLoop_eq]
    exact (hrun 0).symm ▸ hnot 0
  · rw [Ctx.acceptLoop_eq]
    exact (hrun 1).symm ▸ hnot 1

end AuthVideo
