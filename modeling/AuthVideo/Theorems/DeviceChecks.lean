import AuthVideo.Lemmas.DeviceRuns
import AuthVideo.Lemmas.Gmssl

/-!
# Theorem 8: what the device derives from a rejected message

`Sharedkey_Gen` and `Sharedkey_Gen2` print what their checks say and go on. A reply or a key comes from a message that passes
the checks exactly when the message passes them or the call raises for another reason.
-/

namespace AuthVideo

section Guard

variable {Γ : Ctx} {u u' : User} {call : DeviceCall} {out : DeviceOutput}

/-- The two checks of a message from the centre, read off the message and the state before it. The other calls have none. -/
def Ctx.Passes (Γ : Ctx) : DeviceCall → User → Prop
  | .registerProc _, _ => True
  | .authPre _ _ _, _ => True
  | .sharedkeyGen QID1 N1 HM2 _, u =>
    HM2 = Γ.sm3Nat [QID1, N1] ∧ ∃ reg, u.reg = some reg ∧ u.QID = some ((QID1 ^^^ reg.mask : Nat) : Int)
  | .sharedkeyGen2 TC1 QID3 HM5, u =>
    HM5 = Γ.sm3Nat [TC1, QID3] ∧ ∃ (reg : Registration) (TA TB : Nat), u.reg = some reg ∧ u.TA1 = some (TA : Int) ∧
      u.TB = some (TB : Int) ∧ reg.NonceTest TA TB TC1

/-- The condition under which a call on a message from the centre returns. -/
def Ctx.Ready (Γ : Ctx) : DeviceCall → User → Prop
  | .registerProc _, _ => True
  | .authPre _ _ _, _ => True
  | .sharedkeyGen QID1 N1 _ b, u => ∃ reg QID d, Γ.GenReady QID1 N1 b u reg QID d
  | .sharedkeyGen2 TC1 QID3 _, u => ∃ reg TA TB a b, Γ.Gen2Ready TC1 QID3 u reg TA TB a b

/-- A call gives a reply or a key only from a message that passes the checks. -/
def Ctx.Guarded (Γ : Ctx) (call : DeviceCall) (u : User) : Prop :=
  ∀ out u', Γ.device call u = .ok (out, u') → Γ.Passes call u

/-- A call on a message returns a reply or a key exactly under its condition. -/
theorem Ctx.ready_of_ok (hu : u.Sound) (h : Γ.device call u = .ok (out, u')) : Γ.Ready call u := by
  cases call with
  | registerProc => trivial
  | authPre => trivial
  | sharedkeyGen QID1 N1 HM2 b =>
    obtain ⟨result, hgen, -⟩ := bind_eq_ok.mp h
    obtain ⟨reg, QID, d, hready, -⟩ := (Ctx.deviceSharedkeyGen_eq_ok hu).mp hgen
    exact ⟨reg, QID, d, hready⟩
  | sharedkeyGen2 TC1 QID3 HM5 =>
    obtain ⟨result, hgen2, -⟩ := bind_eq_ok.mp h
    obtain ⟨reg, TA, TB, a, b, hready, -⟩ := (Ctx.deviceSharedkeyGen2_eq_ok hu).mp hgen2
    exact ⟨reg, TA, TB, a, b, hready⟩

/-- A call that may return does, unless its message passes the checks anyway. -/
theorem Ctx.Ready.returns (hu : u.Sound) (h : Γ.Ready call u) :
    Γ.Passes call u ∨ ∃ out u', Γ.device call u = .ok (out, u') := by
  cases call with
  | registerProc => exact Or.inl trivial
  | authPre => exact Or.inl trivial
  | sharedkeyGen QID1 N1 HM2 b =>
    obtain ⟨reg, QID, d, hready⟩ := h
    have hgen : Γ.deviceSharedkeyGen QID1 N1 HM2 b u = .ok (Γ.genResult QID1 N1 HM2 b u reg QID d) :=
      (Ctx.deviceSharedkeyGen_eq_ok hu).mpr ⟨reg, QID, d, hready, rfl⟩
    exact Or.inr ⟨_, _, bind_eq_ok.mpr ⟨_, hgen, rfl⟩⟩
  | sharedkeyGen2 TC1 QID3 HM5 =>
    obtain ⟨reg, TA, TB, a, b, hready⟩ := h
    have hgen2 : Γ.deviceSharedkeyGen2 TC1 QID3 HM5 u = .ok (Γ.gen2Result TC1 QID3 HM5 u reg TA TB a b) :=
      (Ctx.deviceSharedkeyGen2_eq_ok hu).mpr ⟨reg, TA, TB, a, b, hready, rfl⟩
    exact Or.inr ⟨_, _, bind_eq_ok.mpr ⟨_, hgen2, rfl⟩⟩

/-- What a call prints on a message that passes: that it passes. -/
theorem Ctx.verdicts_of_passes (hu : u.Sound) (h : Γ.device call u = .ok (out, u')) (hpasses : Γ.Passes call u) :
    ∀ verdict ∈ out.verdicts, verdict.2 = true := by
  cases call with
  | registerProc =>
    cases h
    simp [DeviceOutput.verdicts]
  | authPre =>
    obtain ⟨result, -, hout⟩ := bind_eq_ok.mp h
    cases hout
    simp [DeviceOutput.verdicts]
  | sharedkeyGen QID1 N1 HM2 b =>
    obtain ⟨result, hgen, hout⟩ := bind_eq_ok.mp h
    obtain ⟨reg, QID, d, hready, rfl⟩ := (Ctx.deviceSharedkeyGen_eq_ok hu).mp hgen
    obtain ⟨htag, reg', hreg, hQID⟩ := hpasses
    obtain rfl : reg = reg' := Option.some.inj (hready.registered.symm.trans hreg)
    obtain rfl : QID = QID1 ^^^ reg.mask := by exact_mod_cast Option.some.inj (hready.pseudonym.symm.trans hQID)
    cases hout
    simp [DeviceOutput.verdicts, htag]
  | sharedkeyGen2 TC1 QID3 HM5 =>
    obtain ⟨result, hgen2, hout⟩ := bind_eq_ok.mp h
    obtain ⟨reg, TA, TB, a, b, hready, rfl⟩ := (Ctx.deviceSharedkeyGen2_eq_ok hu).mp hgen2
    obtain ⟨htag, reg', TA', TB', hreg, hTA, hTB, htest⟩ := hpasses
    obtain rfl : reg = reg' := Option.some.inj (hready.registered.symm.trans hreg)
    obtain rfl : TA = TA' := by exact_mod_cast Option.some.inj (hready.first.symm.trans hTA)
    obtain rfl : TB = TB' := by exact_mod_cast Option.some.inj (hready.second.symm.trans hTB)
    cases hout
    simp [DeviceOutput.verdicts, htag, htest]

end Guard

/-- Theorem 8 (checks of the device). In every reachable state, a call gives a reply or a key only from a message that passes
the checks exactly when the message passes them or the call raises anyway. And where every message of a run meets that
condition, all that is printed along with a reply or a key is that a check passed. -/
theorem device_guarded_iff (Γ : Ctx) :
    (∀ u, Γ.DeviceReachable u → ∀ call, Γ.Guarded call u ↔ (Γ.Ready call u → Γ.Passes call u)) ∧
    (∀ calls, (∀ earlier call later u, calls = earlier ++ call :: later →
      (Machine.run Γ.device earlier User.init).2 = .ok u → Γ.Ready call u → Γ.Passes call u) →
        ∀ entry ∈ (Machine.run Γ.device calls User.init).1,
          ∀ verdict ∈ DeviceOutput.verdicts entry.2, verdict.2 = true) := by
  constructor
  · intro u hreachable call
    have hu := hreachable.sound
    constructor
    · intro hguarded hready
      rcases hready.returns hu with hpasses | ⟨out, u', hok⟩
      · exact hpasses
      · exact hguarded out u' hok
    · intro h out u' hok
      exact h (Ctx.ready_of_ok hu hok)
  · intro calls hcalls entry hentry
    obtain ⟨earlier, later, u, u', hsplit, hrun, hok⟩ := Machine.mem_run hentry
    have hu : u.Sound := Ctx.DeviceReachable.sound ⟨earlier, hrun⟩
    exact Ctx.verdicts_of_passes hu hok (hcalls earlier entry.1 later u hsplit hrun (Ctx.ready_of_ok hu hok))

/-! ## A message that is rejected and used -/

section Sample

variable {Γ : Ctx} {C : Center} {people : JsonFile} {uid pw Bio L : Nat}

/-- The device gets into the state after its login. -/
theorem Ctx.Honest.loggedIn_reachable (h : Γ.Honest C people uid pw Bio L) (k : Nat) :
    Γ.DeviceReachable (Γ.loggedIn C k uid pw Bio L User.init) := by
  have hreg : (User.init.registerProc (Γ.registrationOf C k uid pw Bio L)).reg = some (Γ.registrationOf C k uid pw Bio L) := rfl
  have hpre := Ctx.authPre_natCast (Ctx.fits_of_noLimit h.noLimit) hreg
  have hlogin : Γ.device (.authPre uid pw Bio) (User.init.registerProc (Γ.registrationOf C k uid pw Bio L)) =
      .ok (.request _, Γ.loggedIn C k uid pw Bio L User.init) := bind_eq_ok.mpr ⟨_, hpre, rfl⟩
  refine ⟨[.registerProc (Γ.registrationOf C k uid pw Bio L), .authPre uid pw Bio], ?_⟩
  rw [Machine.run_cons_ok rfl, Machine.run_cons_ok hlogin, Machine.run_nil]

/-- A call that returns leads to another reachable state. -/
theorem Ctx.DeviceReachable.step {u u' : User} {call : DeviceCall} {out : DeviceOutput} (hu : Γ.DeviceReachable u)
    (h : Γ.device call u = .ok (out, u')) : Γ.DeviceReachable u' := by
  obtain ⟨calls, hrun⟩ := hu
  refine ⟨calls ++ [call], ?_⟩
  rw [Machine.run_append_of_ok hrun, Machine.run_cons_ok h, Machine.run_nil]

/-- After its login the device replies to any message with a tag that is no hash. -/
theorem Ctx.Honest.replies (h : Γ.Honest C people uid pw Bio L) (k QID1 N1 b : Nat) :
    ∃ out u', Γ.device (.sharedkeyGen QID1 N1 (2 ^ 256) b) (Γ.loggedIn C k uid pw Bio L User.init) = .ok (out, u') := by
  have hfits := Ctx.fits_of_noLimit h.noLimit
  have hready : Γ.GenReady QID1 N1 b (Γ.loggedIn C k uid pw Bio L User.init) (Γ.registrationOf C k uid pw Bio L)
      (C.sent k (Γ.pseudonym uid L Bio)) k := ⟨rfl, rfl, rfl, C.N_pos.ne', hfits _, hfits _⟩
  have hgen : ∃ out, Γ.deviceSharedkeyGen QID1 N1 ((2 ^ 256 : ℕ) : ℤ) b (Γ.loggedIn C k uid pw Bio L User.init) = .ok out :=
    ⟨_, (Ctx.deviceSharedkeyGen_eq_ok (h.loggedIn_reachable k).sound).mpr ⟨_, _, _, hready, rfl⟩⟩
  obtain ⟨out, hgen⟩ := hgen
  exact ⟨_, _, bind_eq_ok.mpr ⟨out, hgen, rfl⟩⟩

/-- After an honest admission the device derives a key from a confirmation with a tag that is no hash. -/
theorem Ctx.Honest.derives (h : Γ.Honest C people uid pw Bio L) (k a b QID3 : Nat) :
    ∃ u out u', Γ.DeviceReachable u ∧ Γ.device (.sharedkeyGen2 (C.mask (a + b)) QID3 (2 ^ 256)) u = .ok (out, u') := by
  have hfits := Ctx.fits_of_noLimit h.noLimit
  have hlogin := h.loggedIn_reachable k
  let mask := C.mask (Γ.parameter uid pw Bio L)
  let QID := C.sent k (Γ.pseudonym uid L Bio)
  have hgen : ∃ out, Γ.device (.sharedkeyGen (QID ^^^ mask) (mask ^^^ a) (Γ.sm3Nat [QID ^^^ mask, mask ^^^ a]) b)
      (Γ.loggedIn C k uid pw Bio L User.init) = .ok (out, C.keyed a b (Γ.loggedIn C k uid pw Bio L User.init)) :=
    ⟨_, bind_eq_ok.mpr ⟨_, Ctx.deviceSharedkeyGen_natCast hfits rfl rfl a b, rfl⟩⟩
  obtain ⟨out, hgen⟩ := hgen
  have hkeyed := hlogin.step hgen
  have htest : (Γ.registrationOf C k uid pw Bio L).NonceTest (C.mask a) (C.mask b) (C.mask (a + b)) := C.nonceTest_sum a b
  have hready : Γ.Gen2Ready (C.mask (a + b)) QID3 (C.keyed a b (Γ.loggedIn C k uid pw Bio L User.init))
      (Γ.registrationOf C k uid pw Bio L) (C.mask a) (C.mask b) a b :=
    ⟨rfl, rfl, rfl, by rw [if_pos htest]; rfl, rfl, C.N_pos.ne', hfits _, hfits _⟩
  have hgen2 : ∃ out, Γ.deviceSharedkeyGen2 (C.mask (a + b)) QID3 ((2 ^ 256 : ℕ) : ℤ)
      (C.keyed a b (Γ.loggedIn C k uid pw Bio L User.init)) = .ok out :=
    ⟨_, (Ctx.deviceSharedkeyGen2_eq_ok hkeyed.sound).mpr ⟨_, _, _, _, _, hready, rfl⟩⟩
  obtain ⟨out, hgen2⟩ := hgen2
  exact ⟨_, _, _, hkeyed, bind_eq_ok.mpr ⟨out, hgen2, rfl⟩⟩

end Sample

/-- The device that registered with SM3 at the sample centre replies to a message and derives a key from a message whose tags
are no hashes. -/
theorem rejected_message_used :
    (∃ u out u', gmCtx.DeviceReachable u ∧ gmCtx.device (.sharedkeyGen 1 2 (2 ^ 256) 6) u = .ok (out, u') ∧
      gmCtx.sm3Nat [1, 2] ≠ 2 ^ 256 ∧ ¬gmCtx.Passes (.sharedkeyGen 1 2 (2 ^ 256) 6) u) ∧
    (∃ TC1 u out u', gmCtx.DeviceReachable u ∧ gmCtx.device (.sharedkeyGen2 TC1 3 (2 ^ 256)) u = .ok (out, u') ∧
      gmCtx.sm3Nat [TC1, 3] ≠ 2 ^ 256 ∧ ¬gmCtx.Passes (.sharedkeyGen2 TC1 3 (2 ^ 256)) u) := by
  have htag : ∀ ns, gmCtx.sm3Nat ns ≠ 2 ^ 256 := fun ns => (gmCtx.sm3Nat_lt ns).ne
  obtain ⟨k, -, -⟩ := gmHonest.index
  constructor
  · obtain ⟨out, u', hok⟩ := gmHonest.replies k 1 2 6
    exact ⟨_, out, u', gmHonest.loggedIn_reachable k, hok, htag _, fun h => htag _ h.1.symm⟩
  · obtain ⟨u, out, u', hu, hok⟩ := gmHonest.derives k 5 6 3
    exact ⟨_, u, out, u', hu, hok, htag _, fun h => htag _ h.1.symm⟩

end AuthVideo
