import AuthVideo.Lemmas.Admission
import AuthVideo.Lemmas.Gmssl

/-!
# Theorem 7: which tampered requests are admitted

The integrity tag `HM1` of an authentication request does not cross the wire: `auth_request_handler` computes it from what it
received, so `user_auth` compares it with itself. What is left are the checks against the record, and they see the three numbers
only after the centre has read them out modulo `N`.
-/

namespace AuthVideo

/-- Three numbers stand for the ones of a request: residues of the pseudonym and the password, and a parameter that gives the
same mask. -/
structure Center.StandsFor (C : Center) (PID pw A QID QPW QID' QPW' QA' : Nat) : Prop where
  pseudonym : PID < C.N ∧ QID' ≡ QID [MOD C.N]
  password : pw < C.N ∧ QPW' ≡ QPW [MOD C.N]
  parameter : C.mask (C.recover QA') = C.mask A

section Tampering

variable {Γ : Ctx} {C : Center} {uid pw Bio L : Nat} {s₀ s₁ server : Server} {reg : Registration} {u u' : User}
  {QID QPW QA : Nat}

/-- What the device sends for a value of its registration, when that returns. -/
theorem Registration.sent_of_ok (hC : C.Proper) (hd : reg.d = modInverse C.e C.n) (hN : reg.N = C.N) {v w : Nat}
    (h : reg.chebyshev reg.d (v : Int) = .ok (w : Int)) :
    ∃ k : Nat, reg.d = some (k : Int) ∧ C.e * k % C.n = 1 ∧ w = C.sent k v := by
  have hsome : ∃ n, reg.d = some n := by
    cases hcase : reg.d with
    | none =>
      rw [hcase] at h
      cases h
    | some n => exact ⟨n, rfl⟩
  obtain ⟨n, hn⟩ := hsome
  obtain ⟨k, rfl, hk⟩ := modInverse_order hC.p_prime hC.q_prime (hd ▸ hn)
  rw [hn, Registration.chebyshev_natCast reg C hN, Except.ok.injEq] at h
  exact ⟨k, hn, hk, by exact_mod_cast h.symm⟩

/-- What `auth_pre` sends for a registration that the centre returned. -/
theorem Ctx.authPre_sent (hC : C.Proper)
    (hreg : u.reg = some ⟨Γ.parameter uid pw Bio L, modInverse C.e C.n, C.N, C.x, C.pk, L⟩)
    (hpre : Γ.authPre uid pw Bio u = .ok (some ((QID : Int), (QPW : Int), (QA : Int)), u')) :
    ∃ k : Nat, C.e * k % C.n = 1 ∧ QID = C.sent k (Γ.pseudonym uid L Bio) ∧ QPW = C.sent k pw := by
  unfold Ctx.authPre at hpre
  simp only [bind_eq_ok, attr_eq_ok, hreg, Option.some.injEq] at hpre
  obtain ⟨reg, rfl, PID1, hPID, hash, -, hpre⟩ := hpre
  obtain ⟨-, rfl⟩ := Ctx.fits_of_sm3Cat [uid, L, Bio] (by simp) hPID
  split at hpre
  · simp only [bind_eq_ok] at hpre
    obtain ⟨qid, hqid, qpw, hqpw, qa, -, hpre⟩ := hpre
    cases hpre
    obtain ⟨k, hk, hinv, rfl⟩ := Registration.sent_of_ok hC rfl rfl hqid
    obtain ⟨k', hk', -, rfl⟩ := Registration.sent_of_ok hC rfl rfl hqpw
    obtain rfl : k = k' := by exact_mod_cast Option.some.inj (hk.symm.trans hk')
    exact ⟨k, hinv, rfl, rfl⟩
  · cases hpre

/-- Theorem 7 (tampering). Let the store of the centre hold one device, registered over an empty store, and let `QID`, `QPW` and
`QA` be what this device sends. Whatever the session, and whatever three naturals come in instead, the centre does not answer
with status 200 exactly when a conversion exceeds the limit or the three numbers do not stand for the ones sent. The hash has no
collision on the texts that are hashed for the verifiers of the two passwords. -/
theorem tampered_refused_iff (hC : C.Proper) (hempty : s₀.people.getD [] = [])
    (hregister : Γ.userRegister C (some (uid : Int)) (some (pw : Int)) (some (Bio : Int)) L s₀ = .ok (reg, s₁))
    (hserver : server.people = s₁.people) (hreg : u.reg = some reg)
    (hpre : Γ.authPre uid pw Bio u = .ok (some ((QID : Int), (QPW : Int), (QA : Int)), u')) (QID' QPW' QA' drawn : Nat)
    (hfree : Set.InjOn Γ.sm3 (Γ.verifierTexts C (C.recover QPW') (Γ.pseudonym uid L Bio) ∪
      Γ.verifierTexts C pw (Γ.pseudonym uid L Bio))) :
    ¬Γ.Admits C (authRequest QID' QPW' QA') drawn server ↔
      ¬(Γ.AuthFits C (server.people.getD []) QID' QPW' QA' drawn ∧
        C.StandsFor (Γ.pseudonym uid L Bio) pw (Γ.parameter uid pw Bio L) QID QPW QID' QPW' QA') := by
  have hfits := Ctx.registerFits_of_ok hregister
  rw [Ctx.userRegister_natCast hfits, Except.ok.injEq, Prod.mk.injEq, hempty, List.nil_append] at hregister
  obtain ⟨rfl, rfl⟩ := hregister
  obtain ⟨k, hk, rfl, rfl⟩ := Ctx.authPre_sent hC hreg hpre
  have hreq : (authRequest QID' QPW' QA').AuthFields QID' QPW' QA' := ⟨rfl, rfl, rfl⟩
  rw [not_congr (Ctx.admits_registered_iff hfits hserver hreq), hserver, Option.getD_some, hC.recover_eq_iff hk]
  refine not_congr (and_congr_right fun _ => ⟨?_, ?_⟩)
  · rintro ⟨hPID, hmask, hverifier⟩
    have hpw := Ctx.verifier_inj hfree hverifier
    exact ⟨hPID, (hC.recover_eq_iff hk).mp hpw, hmask⟩
  · rintro ⟨hPID, hpw, hmask⟩
    exact ⟨hPID, hmask, by rw [(hC.recover_eq_iff hk).mpr hpw]⟩

/-- What an honest device sends for its registration. -/
theorem Ctx.Honest.sends (h : Γ.Honest C s₀.people uid pw Bio L) {k : Nat} (hk : modInverse C.e C.n = some (k : Int))
    (u : User) :
    ∃ reg u', Γ.userRegister C (some (uid : Int)) (some (pw : Int)) (some (Bio : Int)) L s₀ =
        .ok (reg, Γ.registeredServer C uid pw Bio L s₀) ∧
      Γ.authPre uid pw Bio (u.registerProc reg) =
        .ok (some ((C.sent k (Γ.pseudonym uid L Bio) : Int), (C.sent k pw : Int), (C.sent k (Γ.parameter uid pw Bio L) : Int)),
          u') := by
  have hfits := Ctx.fits_of_noLimit h.noLimit
  have hregister := Ctx.userRegister_of_noLimit h.noLimit C uid pw Bio L s₀
  refine ⟨_, _, hregister, Ctx.authPre_natCast hfits ?_⟩
  rw [hk]
  rfl

/-- With the modulus added to its pseudonym, the request of a registered device is admitted. -/
theorem Ctx.Honest.admits_shifted (h : Γ.Honest C s₀.people uid pw Bio L) (hempty : s₀.people.getD [] = []) {k : Nat}
    (hrecover : ∀ v < C.N, C.recover (C.sent k v) = v) (drawn : Nat) :
    Γ.Admits C (authRequest (C.sent k (Γ.pseudonym uid L Bio) + C.N : Nat) (C.sent k pw : Nat)
      (C.sent k (Γ.parameter uid pw Bio L) : Nat)) drawn (Γ.registeredServer C uid pw Bio L s₀) := by
  have hfits := Ctx.fits_of_noLimit h.noLimit
  have hpeople : (Γ.registeredServer C uid pw Bio L s₀).people = some [Γ.personOf C uid pw Bio L] := by
    unfold Ctx.registeredServer
    rw [hempty, List.nil_append]
  have hPID : C.recover (C.sent k (Γ.pseudonym uid L Bio) + C.N) = Γ.pseudonym uid L Bio := by
    unfold Center.recover
    rw [← chebNat_mod C.N_pos, Nat.add_mod_right, chebNat_mod C.N_pos]
    exact hrecover _ (Ctx.pseudonym_lt h)
  refine (Ctx.admits_registered_iff ⟨hfits _, hfits _, hfits _, hfits _, hfits _, hfits _⟩ hpeople ⟨rfl, rfl, rfl⟩).mpr ?_
  refine ⟨⟨hfits _, hfits _, fun _ _ _ => ⟨hfits _, hfits _⟩, fun _ _ _ _ => hfits _⟩, hPID, ?_, ?_⟩
  · rw [hrecover _ (Ctx.parameter_lt h)]
  · rw [hrecover _ h.password]

end Tampering

/-- The modulus of the sample centre. -/
theorem sampleProper : sampleCenter.Proper :=
  ⟨sampleHonest.p_prime, sampleHonest.q_prime, sampleHonest.p_odd, sampleHonest.q_odd, sampleHonest.distinct⟩

/-- SM3 has no collision on the two texts of the sample verifier. -/
theorem gm_injOn : Set.InjOn gmCtx.sm3 (gmCtx.verifierTexts sampleCenter 2 (gmCtx.pseudonym 1 4 3)) := by
  have hne : gmCtx.sm3Nat [2, sampleCenter.sk] ≠ gmCtx.verifier sampleCenter 2 (gmCtx.pseudonym 1 4 3) := by
    rw [gm_password, gm_verifiers.1]
    decide
  exact Set.injOn_pair.mpr fun h => absurd h hne

/-- The device that registered with SM3 at the sample centre sends its request, and `QID + N` comes in for `QID`. -/
theorem tampered_refused_iff_sample :
    ∃ (s₁ : Server) (QID QPW QA : Nat),
      ¬gmCtx.Admits sampleCenter (authRequest (QID + sampleCenter.N : Nat) QPW QA) 5 s₁ ↔
        ¬(gmCtx.AuthFits sampleCenter (s₁.people.getD []) (QID + sampleCenter.N) QPW QA 5 ∧
          sampleCenter.StandsFor (gmCtx.pseudonym 1 4 3) 2 (gmCtx.parameter 1 2 3 4) QID QPW (QID + sampleCenter.N) QPW
            QA) := by
  obtain ⟨k, hk, hrecover⟩ := gmHonest.index
  have hhonest : gmCtx.Honest sampleCenter (Server.start none).people 1 2 3 4 := gmHonest
  obtain ⟨reg, u', hregister, hpre⟩ := hhonest.sends hk User.init
  have hfree : Set.InjOn gmCtx.sm3 (gmCtx.verifierTexts sampleCenter (sampleCenter.recover (sampleCenter.sent k 2))
      (gmCtx.pseudonym 1 4 3) ∪ gmCtx.verifierTexts sampleCenter 2 (gmCtx.pseudonym 1 4 3)) := by
    rw [hrecover 2 gmHonest.password, Set.union_self]
    exact gm_injOn
  exact ⟨_, sampleCenter.sent k (gmCtx.pseudonym 1 4 3), sampleCenter.sent k 2, sampleCenter.sent k (gmCtx.parameter 1 2 3 4),
    tampered_refused_iff sampleProper rfl hregister rfl rfl hpre (sampleCenter.sent k (gmCtx.pseudonym 1 4 3) + sampleCenter.N)
      (sampleCenter.sent k 2) (sampleCenter.sent k (gmCtx.parameter 1 2 3 4)) 5 hfree⟩

/-- With the modulus added to `QID` the request is another one, and the centre admits it. -/
theorem tampered_admitted :
    ∃ (reg : Registration) (s₁ : Server) (u' : User) (QID QPW QA : Nat),
      gmCtx.userRegister sampleCenter (some ((1 : Nat) : Int)) (some ((2 : Nat) : Int)) (some ((3 : Nat) : Int)) 4
        (Server.start none) = .ok (reg, s₁) ∧
      gmCtx.authPre (1 : Nat) (2 : Nat) (3 : Nat) (User.init.registerProc reg) =
        .ok (some ((QID : Int), (QPW : Int), (QA : Int)), u') ∧
      Set.InjOn gmCtx.sm3 (gmCtx.verifierTexts sampleCenter (sampleCenter.recover QPW) (gmCtx.pseudonym 1 4 3) ∪
        gmCtx.verifierTexts sampleCenter 2 (gmCtx.pseudonym 1 4 3)) ∧
      (QID + sampleCenter.N, QPW, QA) ≠ (QID, QPW, QA) ∧
      gmCtx.Admits sampleCenter (authRequest (QID + sampleCenter.N : Nat) QPW QA) 5 s₁ := by
  obtain ⟨k, hk, hrecover⟩ := gmHonest.index
  have hhonest : gmCtx.Honest sampleCenter (Server.start none).people 1 2 3 4 := gmHonest
  obtain ⟨reg, u', hregister, hpre⟩ := hhonest.sends hk User.init
  have hshifted := hhonest.admits_shifted rfl hrecover 5
  refine ⟨reg, _, u', _, _, _, hregister, hpre, ?_, ?_, hshifted⟩
  · rw [hrecover 2 gmHonest.password, Set.union_self]
    exact gm_injOn
  · intro h
    have hpos := sampleCenter.N_pos
    have hsame := congrArg Prod.fst h
    dsimp only at hsame
    omega

end AuthVideo
