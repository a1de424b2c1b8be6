import AuthVideo.Lemmas.Board

/-!
# Theorem 14: what the boards answer

The checks of the boards print a line each, and the `send` at the end of a turn is reached from every case but 103. A board fails
closed exactly on the runs in which every message that it comes to the end of is a 101, passes the checks of its type, or asks it
to quit.
-/

namespace AuthVideo

/-! ## Failing closed -/

/-- The type of a message, where it has one. -/
def Received.type (m : Received) : Option Int := (scanned m.text)[0]?.map strtol

/-- The message asks the client to close its connection. -/
def Received.Quits (m : Received) : Prop := m.text.head? = some 113 ∨ m.text.head? = some 81

/-- No type, or none of the three. -/
def Received.Unrecognised (m : Received) : Prop := m.type ≠ some 101 ∧ m.type ≠ some 102 ∧ m.type ≠ some 103

/-- The messages that a board sends begin with their type. -/
def IsProtocol (s : Bytes) : Prop := cstr "201" <+: s ∨ cstr "202" <+: s ∨ cstr "203" <+: s

/-- A turn fails closed. A 202 with the parameters computed in the turn answers a 101 that passes the self-authentication; a 203
answers a 102 that passes both checks; a key is computed after a 103 that passes both; and nothing answers a message of another
type. -/
structure FailsClosed (m : Received) (out : Output) : Prop where
  auth : ∀ q, out.fresh = some q → out.sent = some q.message → m.type = some 101 ∧ (.selfAuth, true) ∈ out.verdicts
  share : ∀ s, out.sent = some s → cstr "203" <+: s →
    m.type = some 102 ∧ (.tagHM2, true) ∈ out.verdicts ∧ (.pseudonym, true) ∈ out.verdicts
  key : ∀ KS, out.key = some KS → m.type = some 103 ∧ (.tagHM5, true) ∈ out.verdicts ∧ (.nonce, true) ∈ out.verdicts
  unrecognised : m.Unrecognised → ∀ s, out.sent = some s → ¬IsProtocol s

/-- The condition on a message, in the state that it arrives in. -/
def Chip.Admits (Γ : Chip) (m : Received) (b : Board) : Prop :=
  m.Quits ∨ m.type = some 101 ∨ (m.type = some 102 ∧ Γ.GenChecks m.text b.statics) ∨
    (m.type = some 103 ∧ Γ.Gen2Checks m.text b.statics)

/-! ## One turn -/

section Turn

variable {Γ : Chip} {m : Received} {temp3 : UInt64} {ret : Int32} {b b' : Board} {out : Output} {line : Line}

/-- A 202 is a protocol message, and no 203. -/
theorem AuthParam.message_spec (q : AuthParam) : IsProtocol q.message ∧ ¬cstr "203" <+: q.message := by
  have hprefix : cstr "202" <+: q.message := by
    simp only [AuthParam.message, List.append_assoc]
    exact List.IsPrefix.trans (by decide) (List.prefix_append (cstr "202 ") _)
  refine ⟨Or.inr (Or.inl hprefix), ?_⟩
  intro h
  have hsame := List.prefix_of_prefix_length_le h hprefix (by decide)
  exact absurd hsame (by decide)

/-- A 203. -/
theorem ShareParam.message_prefix (q : ShareParam) : cstr "203" <+: q.message := by
  simp only [ShareParam.message, List.append_assoc]
  exact List.IsPrefix.trans (by decide) (List.prefix_append (cstr "203 ") _)

/-- The registration of a user is a protocol message. -/
theorem Statics.requestSend_isProtocol (s : Statics) : IsProtocol (s.requestSend (cstr "201")) := by
  simp only [Statics.requestSend, List.append_assoc]
  exact Or.inl (List.prefix_append _ _)

/-- What a turn does with the type that it finds in `first`. -/
def Chip.Acts (Γ : Chip) (m : Received) (temp3 : UInt64) (ret : Int32) (b : Board) (first : Bytes) (out : Output) (line : Line) :
    Prop :=
  (strtol first = 101 ∧ ∃ b', Γ.case101 m.text { b with first } = some (out, b') ∧ line = b'.send ret) ∨
  (strtol first = 102 ∧ ∃ b', Γ.case102 m.text temp3 { b with first } = some (out, b') ∧ line = b'.send ret) ∨
  (strtol first = 103 ∧ Γ.case103 m.text { b with first } = some out ∧ line = .endless) ∨
  (strtol first ≠ 101 ∧ strtol first ≠ 102 ∧ strtol first ≠ 103 ∧ out = ⟨some b.sendData, none, none, []⟩ ∧
    line = Board.send { b with first } ret)

/-- What a turn does. The type of a message without one is that of the message before. -/
theorem Chip.turn_eq_some (h : Γ.turn m.text temp3 ret b = some (out, line)) :
    (m.Quits ∧ out = ⟨none, none, none, []⟩ ∧ line = .idle b) ∨
    ¬m.Quits ∧ ∃ first, (m.type = none ∨ m.type = some (strtol first)) ∧ Γ.Acts m temp3 ret b first out line := by
  unfold Chip.turn at h
  split at h
  · rename_i hquits
    cases h
    exact Or.inl ⟨hquits, rfl, rfl⟩
  · rename_i hquits
    refine Or.inr ⟨hquits, sscanf m.text 0 b.first, ?_, ?_⟩
    · unfold Received.type
      cases hfield : (scanned m.text)[0]? with
      | none => exact Or.inl rfl
      | some field =>
        rw [sscanf_of_some hfield]
        exact Or.inr rfl
    · simp only at h
      split at h
      · rename_i htype
        obtain ⟨⟨out', b'⟩, hcase, h⟩ := Option.bind_eq_some_iff.mp h
        cases h
        exact Or.inl ⟨htype, b', hcase, rfl⟩
      · rename_i h101
        split at h
        · rename_i htype
          obtain ⟨⟨out', b'⟩, hcase, h⟩ := Option.bind_eq_some_iff.mp h
          cases h
          exact Or.inr (Or.inl ⟨htype, b', hcase, rfl⟩)
        · rename_i h102
          split at h
          · rename_i htype
            obtain ⟨out', hcase, h⟩ := Option.bind_eq_some_iff.mp h
            cases h
            exact Or.inr (Or.inr (Or.inl ⟨htype, hcase, rfl⟩))
          · rename_i h103
            cases h
            exact Or.inr (Or.inr (Or.inr ⟨h101, h102, h103, rfl, rfl⟩))

/-- A board that listens holds a protocol message in its buffer. -/
def Line.Holds : Line → Prop
  | .listening b => IsProtocol b.sendData
  | _ => True

/-- A `send` leaves the buffer as it is. -/
theorem Board.send_holds (h : IsProtocol b.sendData) : (b.send ret).Holds := by
  unfold Board.send
  split
  · trivial
  · exact h

/-- Every turn keeps a protocol message in the buffer. -/
theorem Chip.turn_holds (hb : IsProtocol b.sendData) (h : Γ.turn m.text temp3 ret b = some (out, line)) : line.Holds := by
  rcases Chip.turn_eq_some h with ⟨-, -, rfl⟩ | ⟨-, first, -, hcase⟩
  · trivial
  · rcases hcase with ⟨-, b', h101, rfl⟩ | ⟨-, b', h102, rfl⟩ | ⟨-, -, rfl⟩ | ⟨-, -, -, -, rfl⟩
    · obtain ⟨q, -, hdata, -⟩ := Chip.case101_eq_some h101
      apply Board.send_holds
      rw [hdata]
      exact q.message_spec.1
    · obtain ⟨q, -, hdata, -⟩ := Chip.case102_eq_some h102
      apply Board.send_holds
      rw [hdata]
      exact Or.inr (Or.inr q.message_prefix)
    · trivial
    · exact Board.send_holds hb

/-- A message without a type is of none of the three. -/
theorem Received.unrecognised_of_none (h : m.type = none) : m.Unrecognised := by
  simp [Received.Unrecognised, h]

/-- A protocol message in answer to a type that is none of the three. -/
theorem not_failsClosed {s : Bytes} (hm : m.Unrecognised) (hsent : out.sent = some s) (hs : IsProtocol s) :
    ¬FailsClosed m out := fun h => h.unrecognised hm s hsent hs

/-- A message of none of the three types, which does not quit, is not admitted. -/
theorem Chip.not_admits (hquits : ¬m.Quits) (hm : m.Unrecognised) : ¬Γ.Admits m b := by
  rintro (h | h | h | h)
  · exact hquits h
  · exact hm.1 h
  · exact hm.2.1 h.1
  · exact hm.2.2 h.1

/-- A 101 fails closed: parameters that are fresh are those of a device that has passed. -/
theorem Chip.failsClosed_of_case101 (htype : m.type = some 101) (h : Γ.case101 m.text b = some (out, b')) : FailsClosed m out := by
  obtain ⟨q, hsent, -, hkey, hfresh⟩ := Chip.case101_eq_some h
  constructor
  · intro p hp _
    exact ⟨htype, hfresh (by rw [hp]; rfl)⟩
  · intro s hs h203
    cases hsent.symm.trans hs
    exact absurd h203 q.message_spec.2
  · intro KS hKS
    cases hkey.symm.trans hKS
  · intro hm
    exact absurd htype hm.1

/-- A 102 is always answered, so it fails closed exactly when its checks pass. -/
theorem Chip.failsClosed_case102_iff (htype : m.type = some 102) (h : Γ.case102 m.text temp3 b = some (out, b')) :
    FailsClosed m out ↔ Γ.GenChecks m.text b.statics := by
  obtain ⟨q, hsent, -, hfresh, hkey, hchecks⟩ := Chip.case102_eq_some h
  constructor
  · intro hclosed
    exact hchecks.mp (hclosed.share _ hsent q.message_prefix).2
  · intro hpasses
    constructor
    · intro p hp
      cases hfresh.symm.trans hp
    · intro s _ _
      exact ⟨htype, hchecks.mpr hpasses⟩
    · intro KS hKS
      cases hkey.symm.trans hKS
    · intro hm
      exact absurd htype hm.2.1

/-- From a 103 a key is always computed, so it fails closed exactly when its checks pass. -/
theorem Chip.failsClosed_case103_iff (htype : m.type = some 103) (h : Γ.case103 m.text b = some out) :
    FailsClosed m out ↔ Γ.Gen2Checks m.text b.statics := by
  obtain ⟨hsent, hfresh, hkey, hchecks⟩ := Chip.case103_eq_some h
  obtain ⟨KS, hKS⟩ := Option.isSome_iff_exists.mp hkey
  constructor
  · intro hclosed
    exact hchecks.mp (hclosed.key KS hKS).2
  · intro hpasses
    constructor
    · intro p hp
      cases hfresh.symm.trans hp
    · intro s hs
      cases hsent.symm.trans hs
    · intro _ _
      exact ⟨htype, hchecks.mpr hpasses⟩
    · intro hm
      exact absurd htype hm.2.2

/-- A message without a type is taken for one of the type of the message before, and answered or turned into a key. -/
theorem Chip.not_failsClosed_of_none {first : Bytes} (hnone : m.type = none) (hb : IsProtocol b.sendData)
    (h : Γ.Acts m temp3 ret b first out line) : ¬FailsClosed m out := by
  have hm := Received.unrecognised_of_none hnone
  rcases h with ⟨-, b', h101, -⟩ | ⟨-, b', h102, -⟩ | ⟨-, h103, -⟩ | ⟨-, -, -, rfl, -⟩
  · obtain ⟨q, hsent, -⟩ := Chip.case101_eq_some h101
    exact not_failsClosed hm hsent q.message_spec.1
  · obtain ⟨q, hsent, -⟩ := Chip.case102_eq_some h102
    exact not_failsClosed hm hsent (Or.inr (Or.inr q.message_prefix))
  · obtain ⟨-, -, hkey, -⟩ := Chip.case103_eq_some h103
    obtain ⟨KS, hKS⟩ := Option.isSome_iff_exists.mp hkey
    intro hclosed
    cases hnone.symm.trans (hclosed.key KS hKS).1
  · exact not_failsClosed hm rfl hb

/-- A turn that gets to its end fails closed exactly on a message that is admitted. -/
theorem Chip.turn_failsClosed_iff (hb : IsProtocol b.sendData) (h : Γ.turn m.text temp3 ret b = some (out, line)) :
    FailsClosed m out ↔ Γ.Admits m b := by
  rcases Chip.turn_eq_some h with ⟨hquits, rfl, -⟩ | ⟨hquits, first, hnone | htype, hcase⟩
  · exact iff_of_true ⟨nofun, nofun, nofun, nofun⟩ (Or.inl hquits)
  · exact iff_of_false (Chip.not_failsClosed_of_none hnone hb hcase) (Chip.not_admits hquits (Received.unrecognised_of_none hnone))
  · rcases hcase with ⟨h101, b', hcase, -⟩ | ⟨h102, b', hcase, -⟩ | ⟨h103, hcase, -⟩ | ⟨h101, h102, h103, rfl, -⟩
    · rw [h101] at htype
      exact iff_of_true (Chip.failsClosed_of_case101 htype hcase) (Or.inr (Or.inl htype))
    · rw [h102] at htype
      rw [Chip.failsClosed_case102_iff htype hcase]
      simp [Chip.Admits, hquits, htype]
    · rw [h103] at htype
      rw [Chip.failsClosed_case103_iff htype hcase]
      simp [Chip.Admits, hquits, htype]
    · have hm : m.Unrecognised := by
        simp [Received.Unrecognised, htype, h101, h102, h103]
      exact iff_of_false (not_failsClosed hm rfl hb) (Chip.not_admits hquits hm)

end Turn

/-! ## Runs -/

/-- An entry of the log of a board fails closed. The commands of the console are not answers. -/
def EntryFailsClosed : BoardEvent × Output → Prop
  | (.recv m _ _, out) => FailsClosed m out
  | _ => True

/-- Every message of a run that a turn comes to the end of is admitted where it arrives. -/
def Chip.AdmitsRun (Γ : Chip) (events : List BoardEvent) : Prop :=
  ∀ earlier m temp3 ret later b, events = earlier ++ .recv m temp3 ret :: later →
    (Machine.run Γ.board earlier (.idle .init)).2 = .ok (.listening b) → (Γ.turn m.text temp3 ret b).isSome → Γ.Admits m b

section Run

variable {Γ : Chip} {m : Received} {temp3 : UInt64} {ret : Int32} {b : Board} {out : Output} {line line' : Line}
  {event : BoardEvent} {events : List BoardEvent}

/-- A message that a turn comes to the end of. -/
theorem Chip.board_recv : Γ.board (.recv m temp3 ret) line = .ok (out, line') ↔
    ∃ b, line = .listening b ∧ Γ.turn m.text temp3 ret b = some (out, line') := by
  constructor
  · intro h
    cases line with
    | idle => cases h
    | endless => cases h
    | listening b =>
      refine ⟨b, rfl, ?_⟩
      simp only [Chip.board] at h
      cases hturn : Γ.turn m.text temp3 ret b with
      | none =>
        rw [hturn] at h
        cases h
      | some result =>
        rw [hturn] at h
        cases h
        rfl
  · rintro ⟨b, rfl, h⟩
    simp only [Chip.board, h]

/-- Every event keeps the invariant. -/
theorem Chip.board_holds (hline : line.Holds) (h : Γ.board event line = .ok (out, line')) : line'.Holds := by
  cases event with
  | rtRequest userid password bio =>
    cases line with
    | idle b =>
      cases h
      trivial
    | listening => cases h
    | endless => cases h
  | tcpclient =>
    cases line with
    | idle b =>
      cases h
      exact b.statics.requestSend_isProtocol
    | listening => cases h
    | endless => cases h
  | recv m temp3 ret =>
    obtain ⟨b, rfl, hturn⟩ := Chip.board_recv.mp h
    exact Chip.turn_holds hline hturn

/-- A board that listens in a run holds a protocol message in its buffer. -/
theorem Chip.run_holds (h : (Machine.run Γ.board events (.idle .init)).2 = .ok line) : line.Holds := by
  have hinit : Line.Holds (.idle .init) := trivial
  exact Machine.run_invariant Line.Holds (fun _ _ _ _ _ hline hstep => Chip.board_holds hline hstep) hinit h

end Run

/-- Theorem 14 (fail closed). On every run of a board, every answer fails closed exactly when every message that it comes to the
end of is a 101, passes the checks of its type, or asks the client to quit. -/
theorem board_failsClosed_iff (Γ : Chip) (events : List BoardEvent) :
    (∀ entry ∈ (Machine.run Γ.board events (.idle .init)).1, EntryFailsClosed entry) ↔ Γ.AdmitsRun events := by
  constructor
  · intro hclosed earlier m temp3 ret later b hsplit hrun hends
    obtain ⟨⟨out, line⟩, hturn⟩ := Option.isSome_iff_exists.mp hends
    have hstep : Γ.board (.recv m temp3 ret) (.listening b) = .ok (out, line) := Chip.board_recv.mpr ⟨b, rfl, hturn⟩
    have hentry : (.recv m temp3 ret, out) ∈ (Machine.run Γ.board events (.idle .init)).1 := by
      rw [hsplit, Machine.run_append_of_ok hrun, Machine.run_cons_ok hstep]
      exact List.mem_append_right _ List.mem_cons_self
    exact (Chip.turn_failsClosed_iff (Chip.run_holds hrun) hturn).mp (hclosed _ hentry)
  · intro hadmits entry hentry
    obtain ⟨earlier, later, line, line', hsplit, hrun, hstep⟩ := Machine.mem_run hentry
    obtain ⟨event, out⟩ := entry
    cases event with
    | rtRequest => trivial
    | tcpclient => trivial
    | recv m temp3 ret =>
      obtain ⟨b, rfl, hturn⟩ := Chip.board_recv.mp hstep
      have hends : (Γ.turn m.text temp3 ret b).isSome := by rw [hturn]; rfl
      have hmessage := hadmits earlier m temp3 ret later b hsplit hrun hends
      exact (Chip.turn_failsClosed_iff (Chip.run_holds hrun) hturn).mpr hmessage

/-- A chip whose loops are given up at once. -/
def sampleChip : Chip := ⟨⟨fun _ => 0, fun _ => Or.inl rfl⟩, ⟨CSm3.IV, .replicate 64 0, 0, 0⟩, 0⟩

/-- The message `9`, of none of the three types. -/
def messageNine : Received where
  text := [57]
  nonzero := by simp
  length_lt := by decide
  first_lt := by decide
  fields_lt := by decide

/-- A board that has sent its registration sends it again in answer to a message of an unknown type. -/
theorem unknown_type_answered :
    ¬∀ entry ∈ (Machine.run sampleChip.board [.tcpclient, .recv messageNine 0 0] (.idle .init)).1, EntryFailsClosed entry := by
  intro hclosed
  have hm : messageNine.Unrecognised := by
    refine ⟨?_, ?_, ?_⟩ <;> decide
  have hentry := hclosed (.recv messageNine 0 0, ⟨some (Board.init.statics.requestSend (cstr "201")), none, none, []⟩)
    (List.mem_cons_of_mem _ List.mem_cons_self)
  exact hentry.unrecognised hm _ rfl (Statics.requestSend_isProtocol _)

end AuthVideo
