import AuthVideo.Board.TcpClient
import AuthVideo.Lemmas.EmbeddedChebyshev
import AuthVideo.Lemmas.Texts

/-!
# What a message does at a board

The two checks of a message, read off the message and the variables before it, and what each case of the loop sends and computes.
-/

namespace AuthVideo

/-! ## Numbers and texts -/

/-- `uint256_equal` is equality. -/
theorem uint256Equal_iff (a b : Uint256) : uint256Equal a b = true ↔ a = b := by
  have hwords : ∀ us vs : List UInt32, us.length = vs.length →
      (((us.zip vs).all fun p => p.1 = p.2) = true ↔ us = vs) := by
    intro us
    induction us with
    | nil =>
      intro vs hlen
      rw [List.length_eq_zero_iff.mp hlen.symm]
      simp
    | cons u us ih =>
      intro vs hlen
      cases vs with
      | nil => cases hlen
      | cons v vs =>
        rw [List.zip_cons_cons, List.all_cons, Bool.and_eq_true, ih vs (Nat.succ.inj hlen), List.cons.injEq]
        simp
  refine (hwords _ _ (a.length_words.trans b.length_words.symm)).trans ?_
  constructor
  · exact Limbs.ext_words
  · intro h
    rw [h]

/-- The fields of a message. The first conversion finds the type. -/
theorem sscanf_of_some {s field : Bytes} {i : Nat} (h : (scanned s)[i]? = some field) (old : Bytes) : sscanf s i old = field := by
  rw [sscanf, h, Option.getD_some]

/-! ## The checks -/

section Checks

variable {Γ : Chip} {recvData : Bytes} {s s' : Statics}

/-- The checks of a message 102: the tag is the hash of its two numbers, and the pseudonym under the mask is the one that the
board has. -/
def Chip.GenChecks (Γ : Chip) (recvData : Bytes) (s : Statics) : Prop :=
  let s := Chip.readGen recvData s
  Γ.sm3Pair s.QID1 s.M1 = s.HM2 ∧
    ∃ TA s', Γ.chebyshev s s.client.A.half s.client.pk s.client.N = some (TA, s') ∧ s.QID1.xor TA = s.client.QID.half

/-- The checks of a message 103: the tag is the hash of its two numbers, and the random numbers satisfy the identity. -/
def Chip.Gen2Checks (Γ : Chip) (recvData : Bytes) (s : Statics) : Prop :=
  let s := Chip.readGen2 recvData s
  Γ.sm3Pair s.TC1 s.QID3 = s.HM5 ∧
    ∃ TA1 s', Γ.chebyshev s s.client.a1 s.client.pk s.client.N = some (TA1, s') ∧
      Chip.nonceTest TA1 s.client.TB s.TC1 s.client.N = true

/-- `chebyshev_Tn` changes `carry4` only. -/
theorem Chip.chebyshev_eq_some {n x p v : Uint256} (h : Γ.chebyshev s n x p = some (v, s')) :
    ∃ carry4, s' = { s with carry4 } := by
  obtain ⟨result, -, hout⟩ := Option.bind_eq_some_iff.mp h
  cases hout
  exact ⟨_, rfl⟩

/-- Two outcomes of different checks are both positive. -/
theorem both_mem_iff {c c' : Check} (hne : c ≠ c') {p q : Bool} :
    (c, true) ∈ [(c, p), (c', q)] ∧ (c', true) ∈ [(c, p), (c', q)] ↔ p = true ∧ q = true := by
  simp [hne, eq_comm]

/-- `Sharedkey_Gen` prints that both checks passed exactly when they do, and ends either way. -/
theorem Chip.sharedkeyGen_verdicts {temp3 : UInt64} {q : ShareParam} {verdicts : List Verdict}
    (h : Γ.sharedkeyGen recvData temp3 s = some (q, verdicts, s')) :
    (.tagHM2, true) ∈ verdicts ∧ (.pseudonym, true) ∈ verdicts ↔ Γ.GenChecks recvData s := by
  obtain ⟨⟨TA, s₁⟩, hTA, h⟩ := Option.bind_eq_some_iff.mp h
  obtain ⟨⟨TC, s₂⟩, -, h⟩ := Option.bind_eq_some_iff.mp h
  obtain ⟨⟨TA1, s₃⟩, -, h⟩ := Option.bind_eq_some_iff.mp h
  obtain ⟨⟨TB, s₄⟩, -, h⟩ := Option.bind_eq_some_iff.mp h
  obtain ⟨outputHash, -, h⟩ := Option.bind_eq_some_iff.mp h
  obtain ⟨carry4, rfl⟩ := Chip.chebyshev_eq_some hTA
  cases h
  rw [both_mem_iff (by decide), uint256Equal_iff, uint256Equal_iff]
  refine and_congr_right ?_
  intro _
  constructor
  · intro hQID
    exact ⟨TA, _, hTA, hQID⟩
  · rintro ⟨TA', s₁', hTA', hQID⟩
    cases hTA.symm.trans hTA'
    exact hQID

/-- `Sharedkey_Gen2` prints that both checks passed exactly when they do, and gives a key either way. -/
theorem Chip.sharedkeyGen2_verdicts {KS : Bytes} {verdicts : List Verdict}
    (h : Γ.sharedkeyGen2 recvData s = some (KS, verdicts, s')) :
    (.tagHM5, true) ∈ verdicts ∧ (.nonce, true) ∈ verdicts ↔ Γ.Gen2Checks recvData s := by
  obtain ⟨⟨TA1, s₁⟩, hTA1, h⟩ := Option.bind_eq_some_iff.mp h
  obtain ⟨KS', -, h⟩ := Option.bind_eq_some_iff.mp h
  obtain ⟨carry4, rfl⟩ := Chip.chebyshev_eq_some hTA1
  cases h
  rw [both_mem_iff (by decide), uint256Equal_iff]
  refine and_congr_right ?_
  intro _
  constructor
  · intro hnonce
    exact ⟨TA1, _, hTA1, hnonce⟩
  · rintro ⟨TA1', s₁', hTA1', hnonce⟩
    cases hTA1.symm.trans hTA1'
    exact hnonce

/-- What `auth_pre` can do: write its argument and the attributes of the client where the self-authentication passes, and return
early where it fails. The parameter is written either way. -/
theorem Chip.authPre_cases {fresh : Option AuthParam} {verdicts : List Verdict} (h : Γ.authPre s = some (fresh, verdicts, s')) :
    (Γ.parameterA s.client = s.client.A ∧ fresh.isSome ∧ verdicts = [(.selfAuth, true)] ∧ ∃ PID QID carry4,
      s' = { s with A := Γ.parameterA s.client, client := { s.client with PID, QID }, carry4 }) ∨
    (Γ.parameterA s.client ≠ s.client.A ∧ fresh = none ∧ verdicts = [(.selfAuth, false)] ∧
      s' = { s with A := Γ.parameterA s.client }) := by
  obtain ⟨PID, -, h⟩ := Option.bind_eq_some_iff.mp h
  simp only at h
  split at h
  · rename_i hself
    obtain ⟨⟨QID, s₁⟩, hQID, h⟩ := Option.bind_eq_some_iff.mp h
    obtain ⟨⟨QPW, s₂⟩, hQPW, h⟩ := Option.bind_eq_some_iff.mp h
    obtain ⟨⟨QA, s₃⟩, hQA, h⟩ := Option.bind_eq_some_iff.mp h
    obtain ⟨_, rfl⟩ := Chip.chebyshev_eq_some hQID
    obtain ⟨_, rfl⟩ := Chip.chebyshev_eq_some hQPW
    obtain ⟨_, rfl⟩ := Chip.chebyshev_eq_some hQA
    cases h
    exact .inl ⟨(uint256Equal_iff _ _).mp hself, rfl, by rw [hself], _, _, _, rfl⟩
  · rename_i hself
    cases h
    have hfalse : uint256Equal (Γ.parameterA s.client) s.client.A = false := Bool.not_eq_true _ ▸ hself
    exact .inr ⟨fun heq => hself ((uint256Equal_iff _ _).mpr heq), rfl, by rw [hfalse], rfl⟩

/-- `auth_pre` writes its argument only where the self-authentication passes. -/
theorem Chip.authPre_fresh {q : AuthParam} {verdicts : List Verdict} (h : Γ.authPre s = some (some q, verdicts, s')) :
    verdicts = [(.selfAuth, true)] ∧ Γ.parameterA s.client = s.client.A := by
  rcases Chip.authPre_cases h with ⟨hA, -, hverdicts, -⟩ | ⟨-, hnone, -⟩
  · exact ⟨hverdicts, hA⟩
  · cases hnone

end Checks

/-! ## The cases of the loop -/

section Cases

variable {Γ : Chip} {recvData : Bytes} {b b' : Board} {out : Output}

/-- A 101 is answered with a 202, whose parameters are fresh only where the self-authentication passes. -/
theorem Chip.case101_eq_some (h : Γ.case101 recvData b = some (out, b')) :
    ∃ q : AuthParam, out.sent = some q.message ∧ b'.sendData = q.message ∧ out.key = none ∧
      (out.fresh.isSome → (.selfAuth, true) ∈ out.verdicts) := by
  obtain ⟨⟨fresh, verdicts, statics⟩, hpre, h⟩ := Option.bind_eq_some_iff.mp h
  cases h
  refine ⟨_, rfl, rfl, rfl, ?_⟩
  intro hfresh
  obtain ⟨q, rfl⟩ := Option.isSome_iff_exists.mp hfresh
  rw [(Chip.authPre_fresh hpre).1]
  exact List.mem_singleton_self _

/-- A 102 is answered with a 203, whatever its checks say. -/
theorem Chip.case102_eq_some {temp3 : UInt64} (h : Γ.case102 recvData temp3 b = some (out, b')) :
    ∃ q : ShareParam, out.sent = some q.message ∧ b'.sendData = q.message ∧ out.fresh = none ∧ out.key = none ∧
      ((.tagHM2, true) ∈ out.verdicts ∧ (.pseudonym, true) ∈ out.verdicts ↔ Γ.GenChecks recvData b.statics) := by
  obtain ⟨⟨q, verdicts, statics⟩, hgen, h⟩ := Option.bind_eq_some_iff.mp h
  cases h
  exact ⟨q, rfl, rfl, rfl, rfl, Chip.sharedkeyGen_verdicts hgen⟩

/-- From a 103 a key is computed, whatever its checks say, and nothing is sent. -/
theorem Chip.case103_eq_some (h : Γ.case103 recvData b = some out) :
    out.sent = none ∧ out.fresh = none ∧ out.key.isSome ∧
      ((.tagHM5, true) ∈ out.verdicts ∧ (.nonce, true) ∈ out.verdicts ↔ Γ.Gen2Checks recvData b.statics) := by
  obtain ⟨⟨KS, verdicts, statics⟩, hgen2, h⟩ := Option.bind_eq_some_iff.mp h
  cases h
  exact ⟨rfl, rfl, rfl, Chip.sharedkeyGen2_verdicts hgen2⟩

end Cases

end AuthVideo
