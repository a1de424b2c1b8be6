import AuthVideo.Lemmas.HonestRun
import AuthVideo.Lemmas.Returns

/-!
# Runs of the device

The device as a machine: what its class is called with, what it answers, and the states that it gets into. Every attribute that
is set holds a natural, whatever registration came in, so the condition under which a step returns is one on naturals.
-/

namespace AuthVideo

/-! ## The machine -/

/-- A call of a method of `User`. The numbers of a response are naturals; `b` is what `Sharedkey_Gen` draws. -/
inductive DeviceCall where
  | registerProc (reg : Registration)
  | authPre (id pw Bio : Int)
  | sharedkeyGen (QID1 N1 HM2 b : Nat)
  | sharedkeyGen2 (TC1 QID3 HM5 : Nat)

/-- What a call returns, with the outcomes that `Sharedkey_Gen` and `Sharedkey_Gen2` print. -/
inductive DeviceOutput where
  | nothing
  | request (ret : Option (Int × Int × Int))
  | reply (N2 TC QID2 HM3 : Int) (verdicts : List Verdict)
  | key (KS : Int) (verdicts : List Verdict)

/-- The printed outcomes. -/
def DeviceOutput.verdicts : DeviceOutput → List Verdict
  | .nothing => []
  | .request _ => []
  | .reply _ _ _ _ verdicts => verdicts
  | .key _ verdicts => verdicts

/-- One call. -/
def Ctx.device (Γ : Ctx) : DeviceCall → User → Except PyError (DeviceOutput × User)
  | .registerProc reg, u => .ok (.nothing, u.registerProc reg)
  | .authPre id pw Bio, u => do
    let (ret, u) ← Γ.authPre id pw Bio u
    return (.request ret, u)
  | .sharedkeyGen QID1 N1 HM2 b, u => do
    let ((N2, TC, QID2, HM3), verdicts, u) ← Γ.deviceSharedkeyGen QID1 N1 HM2 b u
    return (.reply N2 TC QID2 HM3 verdicts, u)
  | .sharedkeyGen2 TC1 QID3 HM5, u => do
    let (KS, verdicts, u) ← Γ.deviceSharedkeyGen2 TC1 QID3 HM5 u
    return (.key KS verdicts, u)

/-- A state that the device gets into by calls that return. -/
def Ctx.DeviceReachable (Γ : Ctx) (u : User) : Prop := ∃ calls, (Machine.run Γ.device calls User.init).2 = .ok u

/-! ## Chebyshev values on the device -/

/-- The values of `chebyshev_matrix` are not negative. -/
theorem chebyshevMatrix_nonneg {p : Nat} (hp : p ≠ 0) (n x : Int) : 0 ≤ chebyshevMatrix n x p := by
  have hmod : ∀ z : Int, 0 ≤ z % p := fun z => Int.emod_nonneg z (by exact_mod_cast hp)
  unfold chebyshevMatrix
  split
  · exact hmod 1
  · split
    · exact hmod x
    · simp only
      cases matrixPower [[2 * x, -1], [1, 0]] (n - 1) p with
      | nil => exact le_refl 0
      | cons row rows => exact hmod _

/-- The value of `chebyshev_matrix` with the modulus of a registration. -/
def Registration.value (reg : Registration) (n x : Int) : Nat := (chebyshevMatrix n x reg.N).toNat

/-- The mask of a registration. -/
def Registration.mask (reg : Registration) : Nat := reg.value reg.A reg.pk

/-- `chebyshev_matrix` returns when its index is a number and its modulus is not zero. -/
theorem Registration.chebyshev_eq_ok {reg : Registration} {n : Option Int} {x z : Int} :
    reg.chebyshev n x = .ok z ↔ ∃ k, n = some k ∧ reg.N ≠ 0 ∧ z = reg.value k x := by
  unfold Registration.chebyshev
  rw [bind_eq_ok]
  refine exists_congr ?_
  intro k
  rw [asInt_eq_ok]
  refine and_congr_right ?_
  intro _
  by_cases hN : reg.N = 0
  · rw [if_pos hN]
    constructor
    · intro h
      cases h
    · intro h
      exact absurd hN h.1
  · have hvalue : (reg.value k x : Int) = chebyshevMatrix k x reg.N := Int.toNat_of_nonneg (chebyshevMatrix_nonneg hN k x)
    rw [if_neg hN, hvalue, Except.ok.injEq]
    constructor
    · intro h
      exact ⟨hN, h.symm⟩
    · intro h
      exact h.2.symm

/-- `chebyshev_matrix` with an index that is a number. -/
theorem Registration.chebyshev_some_eq_ok {reg : Registration} {n x z : Int} :
    reg.chebyshev (some n) x = .ok z ↔ reg.N ≠ 0 ∧ z = reg.value n x := by
  rw [Registration.chebyshev_eq_ok]
  constructor
  · rintro ⟨k, hk, h⟩
    cases hk
    exact h
  · intro h
    exact ⟨n, rfl, h⟩

/-! ## The invariant -/

/-- The attributes that the checks and the hashes read hold naturals. -/
structure User.Sound (u : User) : Prop where
  QID : ∀ z, u.QID = some z → 0 ≤ z
  tmpa1 : ∀ z, u.tmpa1 = some z → 0 ≤ z
  b : ∀ z, u.b = some z → 0 ≤ z
  TA1 : ∀ z, u.TA1 = some z → 0 ≤ z
  TB : ∀ z, u.TB = some z → 0 ≤ z
  a : ∀ z, u.a = some z → 0 ≤ z

/-- An attribute that holds a natural. -/
theorem exists_natCast {v : Option Int} {z : Int} (h : ∀ z, v = some z → 0 ≤ z) (hv : v = some z) : ∃ n : Nat, z = n :=
  Int.eq_ofNat_of_zero_le (h z hv)

/-! ## When the steps return -/

section Steps

variable {Γ : Ctx} {u : User}

/-- The condition under which `Sharedkey_Gen` returns. -/
structure Ctx.GenReady (Γ : Ctx) (QID1 N1 b : Nat) (u : User) (reg : Registration) (QID : Nat) (d : Int) : Prop where
  registered : u.reg = some reg
  pseudonym : u.QID = some (QID : Int)
  index : reg.d = some d
  modulus : reg.N ≠ 0
  tag : Γ.Fits [QID1, N1]
  reply : Γ.Fits [reg.mask ^^^ b, reg.value ((N1 ^^^ reg.mask) + b : Nat) reg.pk, reg.value d QID]

/-- What `Sharedkey_Gen` returns. -/
def Ctx.genResult (Γ : Ctx) (QID1 N1 HM2 b : Nat) (u : User) (reg : Registration) (QID : Nat) (d : Int) :
    (Int × Int × Int × Int) × List Verdict × User :=
  let a1 := N1 ^^^ reg.mask
  let N2 := reg.mask ^^^ b
  let TC := reg.value (a1 + b : Nat) reg.pk
  let QID2 := reg.value d QID
  (((N2 : Int), (TC : Int), (QID2 : Int), (Γ.sm3Nat [N2, TC, QID2] : Int)),
    [(.tagHM2, HM2 = Γ.sm3Nat [QID1, N1]), (.pseudonym, QID1 ^^^ reg.mask = QID)],
    { u with tmpa1 := some (a1 : Int), b := some (b : Int), TA1 := some (reg.value a1 reg.pk : Int),
             TB := some (reg.value b reg.pk : Int) })

/-- `Sharedkey_Gen` returns under its condition, and whatever its checks say. -/
theorem Ctx.deviceSharedkeyGen_eq_ok (hu : u.Sound) {QID1 N1 HM2 b : Nat}
    {out : (Int × Int × Int × Int) × List Verdict × User} :
    Γ.deviceSharedkeyGen QID1 N1 HM2 b u = .ok out ↔
      ∃ reg QID d, Γ.GenReady QID1 N1 b u reg QID d ∧ out = Γ.genResult QID1 N1 HM2 b u reg QID d := by
  unfold Ctx.deviceSharedkeyGen
  simp only [bind_eq_ok, attr_eq_ok, Registration.chebyshev_some_eq_ok]
  constructor
  · rintro ⟨tag, htag, reg, hreg, TTG, ⟨hN, rfl⟩, z, hz, TC, ⟨-, rfl⟩, TA1, ⟨-, rfl⟩, TB, ⟨-, rfl⟩, QID2, hQID2, HM3, hHM3,
      hout⟩
    obtain ⟨d, hd, -, rfl⟩ := Registration.chebyshev_eq_ok.mp hQID2
    obtain ⟨QID, rfl⟩ := exists_natCast hu.QID hz
    obtain ⟨hfits, rfl⟩ := Ctx.fits_of_sm3Cat [QID1, N1] (by simp) htag
    have hmask : reg.value reg.A reg.pk = reg.mask := rfl
    simp only [hmask, Mask.xor_natCast, ← Nat.cast_add] at hHM3 hout
    obtain ⟨hreply, rfl⟩ := Ctx.fits_of_sm3Cat
      [reg.mask ^^^ b, reg.value ((N1 ^^^ reg.mask) + b : Nat) reg.pk, reg.value d QID] (by simp) hHM3
    cases hout
    refine ⟨reg, QID, d, ⟨hreg, hz, hd, hN, hfits, hreply⟩, ?_⟩
    simp only [Ctx.genResult, Nat.cast_inj]
  · rintro ⟨reg, QID, d, h, rfl⟩
    have hmask : reg.value reg.A reg.pk = reg.mask := rfl
    refine ⟨_, (Ctx.sm3Cat_two Γ QID1 N1).trans (if_pos h.tag), reg, h.registered, _, ⟨h.modulus, rfl⟩, _, h.pseudonym,
      _, ⟨h.modulus, rfl⟩, _, ⟨h.modulus, rfl⟩, _, ⟨h.modulus, rfl⟩, _,
      Registration.chebyshev_eq_ok.mpr ⟨_, h.index, h.modulus, rfl⟩, ?_⟩
    simp only [hmask, Mask.xor_natCast, ← Nat.cast_add, Ctx.sm3Cat_three, if_pos h.reply, Nat.cast_inj]
    exact ⟨_, rfl, rfl⟩

/-- The test of the nonces on the device: the sum of the squares and twice the product are congruent modulo `N`. -/
def Registration.NonceTest (reg : Registration) (TA TB TC1 : Nat) : Prop :=
  (TA * TA + TB * TB + TC1 * TC1) % reg.N = (2 * TA * TB * TC1 + 1) % reg.N

instance (reg : Registration) (TA TB TC1 : Nat) : Decidable (reg.NonceTest TA TB TC1) := inferInstanceAs (Decidable (_ = _))

/-- The condition under which `Sharedkey_Gen2` returns. A nonce that fails its test is not read: an earlier one is. -/
structure Ctx.Gen2Ready (Γ : Ctx) (TC1 QID3 : Nat) (u : User) (reg : Registration) (TA TB a b : Nat) : Prop where
  registered : u.reg = some reg
  first : u.TA1 = some (TA : Int)
  second : u.TB = some (TB : Int)
  nonce : (if reg.NonceTest TA TB TC1 then u.tmpa1 else u.a) = some (a : Int)
  drawn : u.b = some (b : Int)
  modulus : reg.N ≠ 0
  tag : Γ.Fits [TC1, QID3]
  key : Γ.Fits [a, b, reg.mask]

/-- What `Sharedkey_Gen2` returns. -/
def Ctx.gen2Result (Γ : Ctx) (TC1 QID3 HM5 : Nat) (u : User) (reg : Registration) (TA TB a b : Nat) :
    Int × List Verdict × User :=
  ((Γ.sm3Nat [a, b, reg.mask] : Int), [(.tagHM5, HM5 = Γ.sm3Nat [TC1, QID3]), (.nonce, reg.NonceTest TA TB TC1)],
    if reg.NonceTest TA TB TC1 then { u with a := some (a : Int) } else { u with tmpa1 := some 0 })

/-- The middle of `Sharedkey_Gen2`: the nonce that the key is made from is in `a` when the rest of the call reads it. -/
theorem nonce_eq_ok {same : Prop} [Decidable same] {u' : User} {z : Int} :
    ((if same then (attr u.tmpa1).map fun a1 => { u with a := some a1 } else .ok { u with tmpa1 := some 0 }) = .ok u' ∧
        u'.a = some z) ↔
      (if same then u.tmpa1 else u.a) = some z ∧
        u' = if same then { u with a := some z } else { u with tmpa1 := some 0 } := by
  by_cases hsame : same
  · simp only [if_pos hsame]
    cases htmp : u.tmpa1 with
    | none =>
      constructor
      · rintro ⟨h, -⟩
        cases h
      · rintro ⟨h, -⟩
        cases h
    | some y =>
      constructor
      · rintro ⟨h, hz⟩
        cases h
        obtain rfl : y = z := Option.some.inj hz
        exact ⟨rfl, rfl⟩
      · rintro ⟨h, rfl⟩
        cases h
        exact ⟨rfl, rfl⟩
  · simp only [if_neg hsame]
    constructor
    · rintro ⟨h, hz⟩
      cases h
      exact ⟨hz, rfl⟩
    · rintro ⟨hz, rfl⟩
      exact ⟨rfl, hz⟩

/-- `Sharedkey_Gen2` returns under its condition, and whatever its checks say. -/
theorem Ctx.deviceSharedkeyGen2_eq_ok (hu : u.Sound) {TC1 QID3 HM5 : Nat} {out : Int × List Verdict × User} :
    Γ.deviceSharedkeyGen2 TC1 QID3 HM5 u = .ok out ↔
      ∃ reg TA TB a b, Γ.Gen2Ready TC1 QID3 u reg TA TB a b ∧ out = Γ.gen2Result TC1 QID3 HM5 u reg TA TB a b := by
  have htest : ∀ (reg : Registration) (TA TB : Nat),
      (((TA : Int) * TA + TB * TB + TC1 * TC1) % reg.N = (2 * TA * TB * TC1 + 1) % reg.N) = reg.NonceTest TA TB TC1 := by
    intro reg TA TB
    unfold Registration.NonceTest
    exact propext (by exact_mod_cast Iff.rfl)
  have hmask : ∀ reg : Registration, reg.value reg.A reg.pk = reg.mask := fun _ => rfl
  unfold Ctx.deviceSharedkeyGen2
  simp only [bind_eq_ok, attr_eq_ok]
  constructor
  · rintro ⟨tag, htag, x, hx, y, hy, reg, hreg, hrest⟩
    obtain ⟨TA, rfl⟩ := exists_natCast hu.TA1 hx
    obtain ⟨TB, rfl⟩ := exists_natCast hu.TB hy
    obtain ⟨hfits, rfl⟩ := Ctx.fits_of_sm3Cat [TC1, QID3] (by simp) htag
    by_cases hN : reg.N = 0
    · rw [if_pos hN] at hrest
      cases hrest
    · simp only [if_neg hN, htest] at hrest
      obtain ⟨u', hu', hrest⟩ := bind_eq_ok.mp hrest
      simp only [bind_eq_ok, attr_eq_ok, Registration.chebyshev_some_eq_ok, hmask] at hrest
      obtain ⟨_, ⟨-, rfl⟩, z, hz, w, hw, KS, hKS, hout⟩ := hrest
      obtain ⟨hnonce, rfl⟩ := nonce_eq_ok.mp ⟨hu', hz⟩
      have hdrawn : u.b = some w := by
        rw [← hw]
        split <;> rfl
      obtain ⟨a, rfl⟩ : ∃ a : Nat, z = a := by
        split at hnonce
        · exact exists_natCast hu.tmpa1 hnonce
        · exact exists_natCast hu.a hnonce
      obtain ⟨b, rfl⟩ := exists_natCast hu.b hdrawn
      obtain ⟨hkey, rfl⟩ := Ctx.fits_of_sm3Cat [a, b, reg.mask] (by simp) hKS
      cases hout
      refine ⟨reg, TA, TB, a, b, ⟨hreg, hx, hy, hnonce, hdrawn, hN, hfits, hkey⟩, ?_⟩
      simp only [Ctx.gen2Result, Nat.cast_inj]
  · rintro ⟨reg, TA, TB, a, b, h, rfl⟩
    refine ⟨_, (Ctx.sm3Cat_two Γ TC1 QID3).trans (if_pos h.tag), _, h.first, _, h.second, reg, h.registered, ?_⟩
    obtain ⟨hu', ha⟩ := nonce_eq_ok.mpr ⟨h.nonce, rfl⟩
    have hdrawn : ∀ v : User, v = (if reg.NonceTest TA TB TC1 then { u with a := some (a : Int) }
        else { u with tmpa1 := some 0 }) → v.b = some (b : Int) := by
      rintro v rfl
      rw [← h.drawn]
      split <;> rfl
    simp only [if_neg h.modulus, htest, hu', ok_bind, bind_eq_ok, attr_eq_ok, Registration.chebyshev_some_eq_ok, hmask,
      Nat.cast_inj]
    refine ⟨_, ⟨h.modulus, rfl⟩, _, ha, _, hdrawn _ rfl, _, ?_, rfl⟩
    rw [Ctx.sm3Cat_three, if_pos h.key]

/-! ## The invariant of the runs -/

/-- One call keeps the invariant. -/
theorem Ctx.device_sound (hu : u.Sound) {call : DeviceCall} {out : DeviceOutput} {u' : User}
    (h : Γ.device call u = .ok (out, u')) : u'.Sound := by
  cases call with
  | registerProc reg =>
    cases h
    exact ⟨hu.QID, hu.tmpa1, hu.b, hu.TA1, hu.TB, hu.a⟩
  | authPre id pw Bio =>
    obtain ⟨⟨ret, u₁⟩, hpre, hout⟩ := bind_eq_ok.mp h
    cases hout
    unfold Ctx.authPre at hpre
    simp only [bind_eq_ok, attr_eq_ok] at hpre
    obtain ⟨reg, -, PID1, -, hash, -, hpre⟩ := hpre
    split at hpre
    · simp only [bind_eq_ok] at hpre
      obtain ⟨QID, hQID, QPW, -, QA, -, hret⟩ := hpre
      cases hret
      refine ⟨?_, hu.tmpa1, hu.b, hu.TA1, hu.TB, hu.a⟩
      intro z hz
      cases hz
      obtain ⟨k, -, -, rfl⟩ := Registration.chebyshev_eq_ok.mp hQID
      exact Int.natCast_nonneg _
    · cases hpre
      exact hu
  | sharedkeyGen QID1 N1 HM2 b =>
    obtain ⟨result, hgen, hout⟩ := bind_eq_ok.mp h
    obtain ⟨reg, QID, d, -, rfl⟩ := (Ctx.deviceSharedkeyGen_eq_ok hu).mp hgen
    cases hout
    refine ⟨hu.QID, ?_, ?_, ?_, ?_, hu.a⟩ <;> rintro z hz <;> cases hz <;> exact Int.natCast_nonneg _
  | sharedkeyGen2 TC1 QID3 HM5 =>
    obtain ⟨result, hgen2, hout⟩ := bind_eq_ok.mp h
    obtain ⟨reg, TA, TB, a, b, -, rfl⟩ := (Ctx.deviceSharedkeyGen2_eq_ok hu).mp hgen2
    cases hout
    split
    · refine ⟨hu.QID, hu.tmpa1, hu.b, hu.TA1, hu.TB, ?_⟩
      intro z hz
      cases hz
      exact Int.natCast_nonneg _
    · refine ⟨hu.QID, ?_, hu.b, hu.TA1, hu.TB, hu.a⟩
      intro z hz
      cases hz
      exact le_refl 0

/-- Every reachable state has the invariant. -/
theorem Ctx.DeviceReachable.sound (h : Γ.DeviceReachable u) : u.Sound := by
  obtain ⟨calls, hrun⟩ := h
  have hinit : User.init.Sound := ⟨nofun, nofun, nofun, nofun, nofun, nofun⟩
  exact Machine.run_invariant User.Sound (fun _ _ _ _ _ hs hstep => Ctx.device_sound hs hstep) hinit hrun

end Steps

end AuthVideo
