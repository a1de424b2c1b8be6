import AuthVideo.Lemmas.Board
import AuthVideo.Theorems.Pseudonym
import AuthVideo.Theorems.Tampering

/-!
# Theorem 48: who passes the self-authentication

The parameter `A` is the hash of the three factors written one after the other, in the script as the number that they make together and
on the boards as the text. Nothing stands between them, so that digits may move from one factor to the next one.
-/

namespace AuthVideo

/-! ## The checks -/

/-- `auth_pre` of the script computes the parameter of the registration. -/
def Ctx.SelfAuthenticates (Λ : Ctx) (reg : Registration) (id pw Bio : Int) : Prop :=
  ∃ PID1, Λ.authPreHashes id pw Bio reg.L = .ok (PID1, reg.A)

/-- Where `auth_pre` returns, it gives up exactly when it does not. -/
theorem Ctx.authPre_isSome_iff {Λ : Ctx} {id pw Bio : Int} {u u' : User} {reg : Registration} {sent : Option (Int × Int × Int)}
    (hreg : u.reg = some reg) (h : Λ.authPre id pw Bio u = .ok (sent, u')) : sent.isSome ↔ Λ.SelfAuthenticates reg id pw Bio := by
  rw [Ctx.authPre_eq] at h
  obtain ⟨reg', hreg', h⟩ := bind_eq_ok.mp h
  obtain rfl : reg = reg' := Option.some.inj (hreg.symm.trans (attr_eq_ok.mp hreg'))
  obtain ⟨⟨PID1, A1⟩, hhashes, h⟩ := bind_eq_ok.mp h
  simp only at h
  rw [Ctx.SelfAuthenticates, hhashes]
  split at h
  · rename_i hA
    obtain ⟨QID, -, h⟩ := bind_eq_ok.mp h
    obtain ⟨QPW, -, h⟩ := bind_eq_ok.mp h
    obtain ⟨QA, -, h⟩ := bind_eq_ok.mp h
    cases h
    exact ⟨fun _ => ⟨PID1, by rw [hA]⟩, fun _ => rfl⟩
  · rename_i hA
    cases h
    refine ⟨fun hsome => absurd hsome (by decide), ?_⟩
    rintro ⟨_, heq⟩
    cases heq
    exact absurd rfl hA

/-- The three numbers that a user of a board enters. -/
structure Factors where
  id : Int32
  pw : Int32
  Bio : Int32
  deriving DecidableEq

/-- The text that `%d%d%d` makes of them. -/
def Factors.inputStr (m : Factors) : Bytes := percentD m.id ++ percentD m.pw ++ percentD m.Bio

/-- The client with what the user entered. -/
def Client.enter (client : Client) (m : Factors) : Client :=
  { client with userid := m.id, password := m.pw, bio := m.Bio }

/-- `auth_pre` of the boards computes the parameter of the client. -/
def Chip.SelfAuthenticates (Γ : Chip) (client : Client) (m : Factors) : Prop :=
  uint256Equal (Γ.parameterA (client.enter m)) client.A = true

/-- Where `auth_pre` returns, it gives up exactly when it does not. -/
theorem Chip.authPre_isSome_iff {Γ : Chip} {s s' : Statics} {m : Factors} {fresh : Option AuthParam} {verdicts : List Verdict}
    (h : Γ.authPre { s with client := s.client.enter m } = some (fresh, verdicts, s')) :
    fresh.isSome ↔ Γ.SelfAuthenticates s.client m := by
  rw [Chip.SelfAuthenticates, uint256Equal_iff]
  rcases Chip.authPre_cases h with ⟨hA, hfresh, -⟩ | ⟨hA, rfl, -⟩
  · exact ⟨fun _ => hA, fun _ => hfresh⟩
  · exact ⟨fun hsome => absurd hsome (by decide), fun heq => absurd heq hA⟩

/-! ## What passes them -/

/-- The hashes of naturals. -/
theorem Ctx.authPreHashes_eq_ok {Λ : Ctx} {id pw Bio L : Nat} {PID1 A1 : Int} :
    Λ.authPreHashes id pw Bio L = .ok (PID1, A1) ↔
      (Λ.Fits [id, L, Bio] ∧ Λ.Fits [id, pw, Bio]) ∧ PID1 = Λ.pseudonym id L Bio ∧ A1 = Λ.parameter id pw Bio L := by
  constructor
  · intro h
    obtain ⟨hash, hhash, h⟩ := bind_eq_ok.mp h
    obtain ⟨hash', hhash', h⟩ := bind_eq_ok.mp h
    obtain ⟨hPID, rfl⟩ := Ctx.fits_of_sm3Cat [id, L, Bio] (by simp) hhash
    obtain ⟨hA, rfl⟩ := Ctx.fits_of_sm3Cat [id, pw, Bio] (by simp) hhash'
    cases h
    exact ⟨⟨hPID, hA⟩, rfl, rfl⟩
  · rintro ⟨⟨hPID, hA⟩, rfl, rfl⟩
    rw [Ctx.authPreHashes, Ctx.sm3Cat_three, if_pos hPID, ok_bind, Ctx.sm3Cat_three, if_pos hA, ok_bind, Mask.xor_natCast]
    rfl

/-- Where the hash tells two texts apart, parameters with one `L` are equal exactly for the same joined number. -/
theorem Ctx.parameter_eq_iff {Λ : Ctx} {id pw Bio id' pw' Bio' L : Nat}
    (hfree : Set.InjOn Λ.sm3 {text [id, pw, Bio], text [id', pw', Bio']}) :
    Λ.parameter id pw Bio L = Λ.parameter id' pw' Bio' L ↔ Decimal.concat [id', pw', Bio'] = Decimal.concat [id, pw, Bio] := by
  constructor
  · intro h
    have hcancel := congrArg (· ^^^ L) h
    simp only [Ctx.parameter, Mask.natXor_cancel_right] at hcancel
    exact (toDigits_inj.mp (hfree (Or.inl rfl) (Or.inr rfl) hcancel)).symm
  · intro h
    rw [Ctx.parameter, Ctx.parameter, Ctx.sm3Nat, Ctx.sm3Nat, h]

/-- The parameter of a board is masked with the `L` of its client, whatever the user enters. -/
theorem Chip.parameterA_enter (Γ : Chip) (client : Client) (m : Factors) :
    Γ.parameterA (client.enter m) = (Γ.sm3 m.inputStr).xor client.L := rfl

/-- Masks cancel. -/
theorem Limbs.xor_cancel {n : Nat} {a b c : Limbs n} (h : a.xor c = b.xor c) : a = b := by
  have hvalue := congrArg (fun v => v.value ^^^ c.value) h
  simp only [Limbs.value_xor, Mask.natXor_cancel_right] at hvalue
  exact Limbs.value_inj hvalue

/-- Two triples pass on one board exactly when one does and their digests are the same. -/
theorem Chip.selfAuthenticates_iff {Γ : Chip} {client : Client} {m m' : Factors} (h : Γ.SelfAuthenticates client m) :
    Γ.SelfAuthenticates client m' ↔ Γ.sm3 m'.inputStr = Γ.sm3 m.inputStr := by
  have hA := (uint256Equal_iff _ _).mp h
  rw [Chip.parameterA_enter] at hA
  rw [Chip.SelfAuthenticates, uint256Equal_iff, Chip.parameterA_enter, ← hA]
  exact ⟨Limbs.xor_cancel, fun heq => by rw [heq]⟩

/-! ## The registered user and the others -/

/-- With two factors right, a triple makes the number of another one only if it is that one. -/
theorem concat_two_factors {id pw Bio id' pw' Bio' : Nat} (h : Decimal.concat [id', pw', Bio'] = Decimal.concat [id, pw, Bio])
    (htwo : (id' = id ∧ pw' = pw) ∨ (id' = id ∧ Bio' = Bio) ∨ (pw' = pw ∧ Bio' = Bio)) :
    (id', pw', Bio') = (id, pw, Bio) := by
  rcases htwo with ⟨rfl, rfl⟩ | ⟨rfl, rfl⟩ | ⟨rfl, rfl⟩
  · have hpair : Decimal.concat [Decimal.concat [id', pw'], Bio'] = Decimal.concat [Decimal.concat [id', pw'], Bio] := by
      rw [Decimal.concat_concat, Decimal.concat_concat]
      exact h
    rw [Decimal.concat_pair_inj hpair]
  · have hpair : Decimal.concat [id', pw'] = Decimal.concat [id', pw] := Decimal.concat_append_inj h
    rw [Decimal.concat_pair_inj hpair]
  · have hpair : Decimal.concat ([id'] ++ [pw']) = Decimal.concat ([id] ++ [pw']) := Decimal.concat_append_inj h
    have hid := Decimal.concat_append_inj hpair
    rw [Decimal.concat_singleton, Decimal.concat_singleton] at hid
    rw [hid]

section SelfAuthentication

variable {Λ : Ctx} {C : Center} {id pw Bio L : Nat} {s₀ s₁ : Server} {reg : Registration} {Γ : Chip} {client : Client} {m m' : Factors}

/-- Theorem 48 (self-authentication). After every registration of three naturals, the check of the script is passed by exactly the
triples of naturals that make the same number when they are written one after the other, as far as the conversions are within the
limit. Of these the registered triple is the only one that has two of the factors right. On a board on which the registered triple
passes, exactly the triples of the same text do. The hash has no collision on the two texts. -/
theorem self_authentication
    (hregister : Λ.userRegister C (some (id : Int)) (some (pw : Int)) (some (Bio : Int)) L s₀ = .ok (reg, s₁)) (id' pw' Bio' : Nat)
    (hfree : Set.InjOn Λ.sm3 {text [id, pw, Bio], text [id', pw', Bio']})
    (hclient : Γ.SelfAuthenticates client m) (hboard : Set.InjOn Γ.sm3 {m.inputStr, m'.inputStr}) :
    (Λ.SelfAuthenticates reg id' pw' Bio' ↔
        (Λ.Fits [id', L, Bio'] ∧ Λ.Fits [id', pw', Bio']) ∧
          Decimal.concat [id', pw', Bio'] = Decimal.concat [id, pw, Bio]) ∧
      (Λ.SelfAuthenticates reg id' pw' Bio' →
        (id' = id ∧ pw' = pw) ∨ (id' = id ∧ Bio' = Bio) ∨ (pw' = pw ∧ Bio' = Bio) → (id', pw', Bio') = (id, pw, Bio)) ∧
      (Γ.SelfAuthenticates client m' ↔ m'.inputStr = m.inputStr) := by
  rw [Ctx.userRegister_natCast (Ctx.registerFits_of_ok hregister), Except.ok.injEq, Prod.mk.injEq] at hregister
  obtain ⟨rfl, -⟩ := hregister
  have hscript : Λ.SelfAuthenticates ⟨Λ.parameter id pw Bio L, modInverse C.e C.n, C.N, C.x, C.pk, L⟩ id' pw' Bio' ↔
      (Λ.Fits [id', L, Bio'] ∧ Λ.Fits [id', pw', Bio']) ∧ Decimal.concat [id', pw', Bio'] = Decimal.concat [id, pw, Bio] := by
    simp only [Ctx.SelfAuthenticates, Ctx.authPreHashes_eq_ok, exists_and_left, exists_eq_left, Nat.cast_inj,
      Ctx.parameter_eq_iff hfree]
  refine ⟨hscript, fun hpass htwo => concat_two_factors (hscript.mp hpass).2 htwo, ?_⟩
  rw [Chip.selfAuthenticates_iff hclient]
  exact ⟨fun h => hboard (Or.inr rfl) (Or.inl rfl) h, fun h => by rw [h]⟩

end SelfAuthentication

/-! ## Another user -/

/-- The user with the number 1 and the password 23. -/
def sampleFactors : Factors := ⟨1, 23, 4⟩

/-- The user with the number 12 and the password 3. -/
def otherFactors : Factors := ⟨12, 3, 4⟩

/-- A client with the parameter of the first one. -/
def registeredClient (Γ : Chip) (client : Client) : Client := { client with A := (Γ.sm3 sampleFactors.inputStr).xor client.L }

theorem registeredClient_passes (Γ : Chip) (client : Client) : Γ.SelfAuthenticates (registeredClient Γ client) sampleFactors := by
  rw [Chip.SelfAuthenticates, uint256Equal_iff, Chip.parameterA_enter]
  rfl

/-- The first user registers, and the second one wants to pass. -/
theorem self_authentication_other :
    ∃ reg : Registration,
      (gmCtx.SelfAuthenticates reg (12 : Nat) (3 : Nat) (4 : Nat) ↔
          (gmCtx.Fits [12, 5, 4] ∧ gmCtx.Fits [12, 3, 4]) ∧ Decimal.concat [12, 3, 4] = Decimal.concat [1, 23, 4]) ∧
        (gmCtx.SelfAuthenticates reg (12 : Nat) (3 : Nat) (4 : Nat) →
          (12 = 1 ∧ 3 = 23) ∨ (12 = 1 ∧ 4 = 4) ∨ (3 = 23 ∧ 4 = 4) → (12, 3, 4) = (1, 23, 4)) ∧
        (sampleChip.SelfAuthenticates (registeredClient sampleChip sampleClient) otherFactors ↔
          otherFactors.inputStr = sampleFactors.inputStr) := by
  have htext : text [12, 3, 4] = text [1, 23, 4] := by decide +kernel
  have hinput : otherFactors.inputStr = sampleFactors.inputStr := by decide +kernel
  have hregister := Ctx.userRegister_of_noLimit (rfl : gmCtx.maxStrDigits = 0) sampleCenter 1 23 4 5 (Server.start none)
  refine ⟨_, self_authentication hregister 12 3 4 ?_ (registeredClient_passes sampleChip sampleClient) ?_⟩
  · rw [htext, Set.pair_eq_singleton]
    exact Set.injOn_singleton _ _
  · rw [hinput, Set.pair_eq_singleton]
    exact Set.injOn_singleton _ _

/-- The script lets nobody but the registered user pass. -/
def Ctx.AcceptsOnlyRegistered (Λ : Ctx) : Prop :=
  ∀ (C : Center) (id pw Bio L : Nat) (s₀ s₁ : Server) (reg : Registration) (id' pw' Bio' : Nat),
    Λ.userRegister C (some (id : Int)) (some (pw : Int)) (some (Bio : Int)) L s₀ = .ok (reg, s₁) →
      Λ.SelfAuthenticates reg id' pw' Bio' → (id', pw', Bio') = (id, pw, Bio)

/-- A board lets nobody but the registered user pass. -/
def Chip.AcceptsOnlyRegistered (Γ : Chip) : Prop :=
  ∀ (client : Client) (m m' : Factors), Γ.SelfAuthenticates client m → Γ.SelfAuthenticates client m' → m' = m

/-- The second user passes for the first one, whatever the hash. -/
theorem other_user_passes :
    (∀ Λ : Ctx, Λ.maxStrDigits = 0 → ¬Λ.AcceptsOnlyRegistered) ∧ ∀ Γ : Chip, ¬Γ.AcceptsOnlyRegistered := by
  constructor
  · intro Λ hlimit honly
    have hfits := Ctx.fits_of_noLimit hlimit
    have htext : text [1, 23, 4] = text [12, 3, 4] := by decide +kernel
    have hsame : Λ.parameter 1 23 4 5 = Λ.parameter 12 3 4 5 := congrArg (fun t => Λ.sm3 t ^^^ 5) htext
    have hpass : Λ.SelfAuthenticates ⟨Λ.parameter 1 23 4 5, modInverse sampleCenter.e sampleCenter.n, sampleCenter.N,
        sampleCenter.x, sampleCenter.pk, (5 : Nat)⟩ (12 : Nat) (3 : Nat) (4 : Nat) :=
      ⟨_, Ctx.authPreHashes_eq_ok.mpr ⟨⟨hfits _, hfits _⟩, rfl, congrArg Nat.cast hsame⟩⟩
    have heq := honly sampleCenter 1 23 4 5 (Server.start none) _ _ 12 3 4 (Ctx.userRegister_of_noLimit hlimit _ _ _ _ _ _) hpass
    exact absurd heq (by decide)
  · intro Γ honly
    have hinput : otherFactors.inputStr = sampleFactors.inputStr := by decide +kernel
    have hpass := (Chip.selfAuthenticates_iff (registeredClient_passes Γ sampleClient)).mpr (congrArg Γ.sm3 hinput)
    exact absurd (honly _ _ _ (registeredClient_passes Γ sampleClient) hpass) (by decide)

end AuthVideo
