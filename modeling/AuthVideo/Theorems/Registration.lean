import AuthVideo.Lemmas.Board
import AuthVideo.Theorems.Board
import AuthVideo.Theorems.HexCodec

/-!
# Theorem 47: a registration with an invalid field

`register_proc` reads its seven texts into variables at file level, looks at none of the return codes, and copies the variables into the
client. Behind an invalid text stands what an earlier call left: a registration, `auth_pre`, which writes `A`, or `Sharedkey_Gen2`, which
writes `N`.
-/

namespace AuthVideo

/-! ## Calls -/

/-- The arguments of `register_proc`. -/
structure Fields where
  second : Bytes
  third : Bytes
  forth : Bytes
  fifth : Bytes
  sixth : Bytes
  seventh : Bytes
  eighth : Bytes

/-- `register_proc` on these. -/
def Statics.register (s : Statics) (f : Fields) : Statics :=
  s.registerProc f.second f.third f.forth f.fifth f.sixth f.seventh f.eighth

/-- A call of a function of `protocol.c` that writes the variables at file level. -/
inductive Call where
  | rtRequest (userid password bio : Int32)
  | registerProc (f : Fields)
  | authPre
  | sharedkeyGen (recvData : Bytes) (temp3 : UInt64)
  | sharedkeyGen2 (recvData : Bytes)

/-- What a call leaves, `none` where it does not return. -/
def Chip.call (Γ : Chip) (s : Statics) : Call → Option Statics
  | .rtRequest userid password bio => some (s.rtRequest userid password bio)
  | .registerProc f => some (s.register f)
  | .authPre => (Γ.authPre s).map fun out => out.2.2
  | .sharedkeyGen recvData temp3 => (Γ.sharedkeyGen recvData temp3 s).map fun out => out.2.2
  | .sharedkeyGen2 recvData => (Γ.sharedkeyGen2 recvData s).map fun out => out.2.2

/-- What some calls leave. -/
def Chip.calls (Γ : Chip) (history : List Call) (s : Statics) : Option Statics := history.foldlM Γ.call s

/-! ## All or nothing -/

/-- All seven texts are what `hex_to_uint256` is meant to accept. -/
structure Fields.Valid (f : Fields) : Prop where
  second : IsHex256 f.second
  third : IsHex256 f.third
  forth : IsHex256 f.forth
  fifth : IsHex256 f.fifth
  sixth : IsHex256 f.sixth
  seventh : IsHex256 f.seventh
  eighth : IsHex256 f.eighth

/-- `register_proc` installs the seven numbers of valid texts, or leaves the client. -/
def AllOrNothing (s : Statics) (f : Fields) : Prop :=
  (f.Valid ∧ ∃ A d N x pk L N1 : Uint256,
    A.value = hexNumber f.second ∧ d.value = hexNumber f.third ∧ N.value = hexNumber f.forth ∧ x.value = hexNumber f.fifth ∧
      pk.value = hexNumber f.sixth ∧ L.value = hexNumber f.seventh ∧ N1.value = hexNumber f.eighth ∧
      (s.register f).client = { s.client with A, d, N, x, pk, L, N1 }) ∨
    (s.register f).client = s.client

/-- A text that leaves a field of the client: a valid one denotes what the field holds, and behind an invalid one the variable holds
that. -/
def Leaves (text : Bytes) (old field : Uint256) : Prop :=
  (IsHex256 text → hexNumber text = field.value) ∧ (¬IsHex256 text → old = field)

/-- Seven texts that leave the client. -/
structure Fields.Keeps (f : Fields) (s : Statics) : Prop where
  second : Leaves f.second s.A s.client.A
  third : Leaves f.third s.d s.client.d
  forth : Leaves f.forth s.N s.client.N
  fifth : Leaves f.fifth s.x s.client.x
  sixth : Leaves f.sixth s.pk s.client.pk
  seventh : Leaves f.seventh s.L s.client.L
  eighth : Leaves f.eighth s.N1 s.client.N1

/-- What a variable holds behind a call of `hex_to_uint256` whose return code nobody reads. -/
theorem hexInto_eq (text : Bytes) (old : Uint256) : hexInto text old = (hexToUint256Ret text old).2 := by
  rw [hexInto, hexToUint256Ret_eq]
  cases hexToUint256 text <;> rfl

/-- A valid text is the number that it denotes. -/
theorem hexInto_of_isHex {text : Bytes} (h : IsHex256 text) (old : Uint256) : (hexInto text old).value = hexNumber text := by
  obtain ⟨a, ha, hret⟩ := hexToUint256Ret_of_isHex h old
  rw [hexInto_eq, hret]
  exact hexToUint256_value ha

/-- An invalid one leaves the variable. -/
theorem hexInto_of_not_isHex {text : Bytes} (h : ¬IsHex256 text) (old : Uint256) : hexInto text old = old := by
  rw [hexInto_eq]
  exact (hexToUint256Ret_of_not_isHex h old).2

/-- What is copied into a field is what it holds exactly when the text leaves it. -/
theorem hexInto_eq_iff (text : Bytes) (old field : Uint256) : hexInto text old = field ↔ Leaves text old field := by
  by_cases h : IsHex256 text
  · constructor
    · intro heq
      exact ⟨fun _ => by rw [← heq, hexInto_of_isHex h], fun hnot => absurd h hnot⟩
    · intro hleaves
      exact Limbs.value_inj ((hexInto_of_isHex h old).trans (hleaves.1 h))
  · rw [hexInto_of_not_isHex h]
    exact ⟨fun heq => ⟨fun hvalid => absurd hvalid h, fun _ => heq⟩, fun hleaves => hleaves.2 h⟩

/-- The client is left exactly by texts that leave each of its fields. -/
theorem register_client_iff (s : Statics) (f : Fields) : (s.register f).client = s.client ↔ f.Keeps s := by
  have hfields : (s.register f).client = s.client ↔
      hexInto f.second s.A = s.client.A ∧ hexInto f.third s.d = s.client.d ∧ hexInto f.forth s.N = s.client.N ∧
        hexInto f.fifth s.x = s.client.x ∧ hexInto f.sixth s.pk = s.client.pk ∧ hexInto f.seventh s.L = s.client.L ∧
        hexInto f.eighth s.N1 = s.client.N1 := by
    obtain ⟨client, _⟩ := s
    obtain ⟨_, _⟩ := client
    simp [Statics.register, Statics.registerProc]
  rw [hfields]
  simp only [hexInto_eq_iff]
  exact ⟨fun ⟨hA, hd, hN, hx, hpk, hL, hN1⟩ => ⟨hA, hd, hN, hx, hpk, hL, hN1⟩,
    fun ⟨hA, hd, hN, hx, hpk, hL, hN1⟩ => ⟨hA, hd, hN, hx, hpk, hL, hN1⟩⟩

/-- The step lemma. A registration is all or nothing exactly with valid texts, or with texts that leave the client. -/
theorem allOrNothing_iff (s : Statics) (f : Fields) : AllOrNothing s f ↔ f.Valid ∨ f.Keeps s := by
  rw [AllOrNothing, register_client_iff]
  refine or_congr_left' fun _ => ?_
  constructor
  · exact fun h => h.1
  · intro h
    exact ⟨h, _, _, _, _, _, _, _, hexInto_of_isHex h.second s.A, hexInto_of_isHex h.third s.d, hexInto_of_isHex h.forth s.N,
      hexInto_of_isHex h.fifth s.x, hexInto_of_isHex h.sixth s.pk, hexInto_of_isHex h.seventh s.L, hexInto_of_isHex h.eighth s.N1, rfl⟩

/-! ## Histories -/

/-- All variables but `A` hold what the client holds. -/
structure Held (s : Statics) : Prop where
  d : s.d = s.client.d
  N : s.N = s.client.N
  x : s.x = s.client.x
  pk : s.pk = s.client.pk
  L : s.L = s.client.L
  N1 : s.N1 = s.client.N1

variable {Γ : Chip} {s s' : Statics}

/-- `auth_pre` writes `A` and no other of them. -/
theorem held_authPre (h : Held s) {fresh : Option AuthParam} {verdicts : List Verdict}
    (hcall : Γ.authPre s = some (fresh, verdicts, s')) : Held s' := by
  rcases Chip.authPre_cases hcall with ⟨-, -, -, _, _, _, rfl⟩ | ⟨-, -, -, rfl⟩
  · exact ⟨h.d, h.N, h.x, h.pk, h.L, h.N1⟩
  · exact ⟨h.d, h.N, h.x, h.pk, h.L, h.N1⟩

/-- `Sharedkey_Gen` writes none of them. -/
theorem held_sharedkeyGen (h : Held s) {recvData : Bytes} {temp3 : UInt64} {q : ShareParam} {verdicts : List Verdict}
    (hcall : Γ.sharedkeyGen recvData temp3 s = some (q, verdicts, s')) : Held s' := by
  obtain ⟨⟨TA, s₁⟩, hTA, hcall⟩ := Option.bind_eq_some_iff.mp hcall
  obtain ⟨⟨TC, s₂⟩, hTC, hcall⟩ := Option.bind_eq_some_iff.mp hcall
  obtain ⟨⟨TA1, s₃⟩, hTA1, hcall⟩ := Option.bind_eq_some_iff.mp hcall
  obtain ⟨⟨TB, s₄⟩, hTB, hcall⟩ := Option.bind_eq_some_iff.mp hcall
  obtain ⟨outputHash, -, hcall⟩ := Option.bind_eq_some_iff.mp hcall
  obtain ⟨_, rfl⟩ := Chip.chebyshev_eq_some hTA
  obtain ⟨_, rfl⟩ := Chip.chebyshev_eq_some hTC
  obtain ⟨_, rfl⟩ := Chip.chebyshev_eq_some hTA1
  obtain ⟨_, rfl⟩ := Chip.chebyshev_eq_some hTB
  cases hcall
  exact ⟨h.d, h.N, h.x, h.pk, h.L, h.N1⟩

/-- `Sharedkey_Gen2` writes what the client holds into `N`. -/
theorem held_sharedkeyGen2 (h : Held s) {recvData : Bytes} {KS : Bytes} {verdicts : List Verdict}
    (hcall : Γ.sharedkeyGen2 recvData s = some (KS, verdicts, s')) : Held s' := by
  obtain ⟨⟨TA1, s₁⟩, hTA1, hcall⟩ := Option.bind_eq_some_iff.mp hcall
  obtain ⟨KS', -, hcall⟩ := Option.bind_eq_some_iff.mp hcall
  obtain ⟨_, rfl⟩ := Chip.chebyshev_eq_some hTA1
  cases hcall
  exact ⟨h.d, rfl, h.x, h.pk, h.L, h.N1⟩

/-- The step lemma. Every call keeps them, a registration by copying them. -/
theorem held_call (h : Held s) (c : Call) (hcall : Γ.call s c = some s') : Held s' := by
  cases c with
  | rtRequest userid password bio =>
    cases hcall
    exact ⟨h.d, h.N, h.x, h.pk, h.L, h.N1⟩
  | registerProc f =>
    cases hcall
    exact ⟨rfl, rfl, rfl, rfl, rfl, rfl⟩
  | authPre =>
    obtain ⟨⟨fresh, verdicts, s''⟩, hout, rfl⟩ := Option.map_eq_some_iff.mp hcall
    exact held_authPre h hout
  | sharedkeyGen recvData temp3 =>
    obtain ⟨⟨q, verdicts, s''⟩, hout, rfl⟩ := Option.map_eq_some_iff.mp hcall
    exact held_sharedkeyGen h hout
  | sharedkeyGen2 recvData =>
    obtain ⟨⟨KS, verdicts, s''⟩, hout, rfl⟩ := Option.map_eq_some_iff.mp hcall
    exact held_sharedkeyGen2 h hout

/-- The run lemma. -/
theorem held_calls (h : Held s) {history : List Call} (hrun : Γ.calls history s = some s') : Held s' := by
  induction history generalizing s with
  | nil =>
    cases hrun
    exact h
  | cons c history ih =>
    rw [Chip.calls, List.foldlM_cons] at hrun
    obtain ⟨s₁, hcall, hrest⟩ := Option.bind_eq_some_iff.mp hrun
    exact ih (held_call h c hcall) hrest

/-- Each valid text denotes what the client has in its field. -/
structure Fields.Repeats (f : Fields) (client : Client) : Prop where
  second : IsHex256 f.second → hexNumber f.second = client.A.value
  third : IsHex256 f.third → hexNumber f.third = client.d.value
  forth : IsHex256 f.forth → hexNumber f.forth = client.N.value
  fifth : IsHex256 f.fifth → hexNumber f.fifth = client.x.value
  sixth : IsHex256 f.sixth → hexNumber f.sixth = client.pk.value
  seventh : IsHex256 f.seventh → hexNumber f.seventh = client.L.value
  eighth : IsHex256 f.eighth → hexNumber f.eighth = client.N1.value

/-- Where the other variables hold what the client holds, only that of an invalid first text is in question. -/
theorem Held.keeps_iff (h : Held s) (f : Fields) :
    f.Keeps s ↔ f.Repeats s.client ∧ (IsHex256 f.second ∨ s.A = s.client.A) := by
  constructor
  · intro hkeeps
    refine ⟨⟨hkeeps.second.1, hkeeps.third.1, hkeeps.forth.1, hkeeps.fifth.1, hkeeps.sixth.1, hkeeps.seventh.1, hkeeps.eighth.1⟩, ?_⟩
    by_cases hvalid : IsHex256 f.second
    · exact .inl hvalid
    · exact .inr (hkeeps.second.2 hvalid)
  · rintro ⟨hrepeats, hA⟩
    exact ⟨⟨hrepeats.second, fun hnot => hA.resolve_left hnot⟩, ⟨hrepeats.third, fun _ => h.d⟩, ⟨hrepeats.forth, fun _ => h.N⟩,
      ⟨hrepeats.fifth, fun _ => h.x⟩, ⟨hrepeats.sixth, fun _ => h.pk⟩, ⟨hrepeats.seventh, fun _ => h.L⟩,
      ⟨hrepeats.eighth, fun _ => h.N1⟩⟩

/-- Theorem 47 (registration). After every history of calls, from every state, `register_proc` is all or nothing exactly when all seven
texts are valid, or when each text leaves its field: a valid one denotes what the field holds, and behind an invalid one the variable
holds it. From a start at which the variables hold what the client holds only `A` can hold something else later, behind a
self-authentication that failed. -/
theorem registration_iff (Γ : Chip) {history : List Call} {s₀ s : Statics} (hrun : Γ.calls history s₀ = some s) (f : Fields) :
    (AllOrNothing s f ↔ f.Valid ∨ f.Keeps s) ∧
      (Held s₀ → (f.Keeps s ↔ f.Repeats s.client ∧ (IsHex256 f.second ∨ s.A = s.client.A))) :=
  ⟨allOrNothing_iff s f, fun hstart => (held_calls hstart hrun).keeps_iff f⟩

/-- A valid first field, the number 1, and an empty second one. -/
def halfFields : Fields := ⟨List.replicate 63 48 ++ [49], [], [], [], [], [], []⟩

/-- At the start. -/
theorem registration_iff_half :
    (AllOrNothing Board.init.statics halfFields ↔ halfFields.Valid ∨ halfFields.Keeps Board.init.statics) ∧
      (Held Board.init.statics → (halfFields.Keeps Board.init.statics ↔ halfFields.Repeats Board.init.statics.client ∧
        (IsHex256 halfFields.second ∨ Board.init.statics.A = Board.init.statics.client.A))) :=
  registration_iff sampleChip (rfl : sampleChip.calls [] Board.init.statics = some Board.init.statics) halfFields

/-- They install `A` and leave `d`. -/
theorem registration_half_installed :
    ¬∀ (Γ : Chip) (history : List Call) (s₀ s : Statics) (f : Fields), Γ.calls history s₀ = some s → AllOrNothing s f := by
  intro hall
  rcases hall sampleChip [] _ _ halfFields (rfl : sampleChip.calls [] Board.init.statics = some Board.init.statics) with
    ⟨hvalid, -⟩ | hclient
  · exact absurd hvalid.third.1 (by decide)
  · have hA := congrArg Client.A hclient
    revert hA
    decide +kernel

end AuthVideo
