import Mathlib.Data.Set.Function
import AuthVideo.Lemmas.HonestRun
import AuthVideo.Lemmas.Reachable

/-!
# Which authentication requests are admitted

An authentication request on naturals is admitted exactly when the numbers that the centre reads out of it fit one record. With
primes as they should be, reading a number out is undone by sending it, so a number read out determines the one received up to
the modulus.
-/

namespace AuthVideo

/-! ## Reading out and sending -/

/-- The modulus of the centre is the product of two different odd primes. -/
structure Center.Proper (C : Center) : Prop where
  p_prime : C.p.Prime
  q_prime : C.q.Prime
  p_odd : C.p ≠ 2
  q_odd : C.q ≠ 2
  distinct : C.p ≠ C.q

section Recover

variable {C : Center} {k : Nat}

/-- The values of `chebyshev_matrix` depend on the residue of the argument. -/
theorem chebNat_mod {p : Nat} (hp : 0 < p) (n x : Nat) : chebNat n (x % p) p = chebNat n x p := by
  have h : (chebNat n (x % p) p : Int) = chebNat n x p := by
    rw [← chebyshevMatrix_natCast hp, ← chebyshevMatrix_natCast hp, Int.natCast_mod, chebyshevMatrix_emod]
  exact_mod_cast h

/-- What is sent is read out again. -/
theorem Center.Proper.recover_sent (hC : C.Proper) (hk : C.e * k % C.n = 1) {v : Nat} (hv : v < C.N) :
    C.recover (C.sent k v) = v :=
  chebNat_inverse hC.p_prime hC.q_prime hC.p_odd hC.q_odd hC.distinct hk hv

/-- Sending what is read out gives the residue of what was received. -/
theorem Center.Proper.sent_recover (hC : C.Proper) (hk : C.e * k % C.n = 1) (v : Nat) :
    C.sent k (C.recover v) = v % C.N := by
  have hinv : chebNat k (chebNat C.e (v % C.N) C.N) C.N = v % C.N :=
    chebNat_inverse hC.p_prime hC.q_prime hC.p_odd hC.q_odd hC.distinct (by rw [Nat.mul_comm]; exact hk)
      (Nat.mod_lt v C.N_pos)
  rw [chebNat_mod C.N_pos] at hinv
  exact hinv

/-- A number is read out of the representatives of what the device sends for it, if it is a residue itself. -/
theorem Center.Proper.recover_eq_iff (hC : C.Proper) (hk : C.e * k % C.n = 1) {v w : Nat} :
    C.recover v = w ↔ w < C.N ∧ v ≡ C.sent k w [MOD C.N] := by
  constructor
  · intro h
    have hlt : w < C.N := by
      rw [← h]
      exact chebNat_lt C.N_pos _ _
    refine ⟨hlt, ?_⟩
    have hsent := hC.sent_recover hk v
    rw [h] at hsent
    rw [hsent]
    exact (Nat.mod_modEq v C.N).symm
  · rintro ⟨hlt, hmod⟩
    have hv : v % C.N = C.sent k w := by
      rw [hmod, Nat.mod_eq_of_lt (C.sent_lt k w)]
    calc C.recover v
        = C.recover (v % C.N) := (chebNat_mod C.N_pos C.e v).symm
      _ = C.recover (C.sent k w) := by rw [hv]
      _ = w := hC.recover_sent hk hlt

end Recover

/-! ## The hash -/

section Hash

variable {Γ : Ctx} {C : Center}

/-- The text that is hashed for some numbers. -/
def text (ns : List Nat) : Text := Nat.toDigits 10 (Decimal.concat ns)

/-- The texts that are hashed for the verifier of a password and a pseudonym. -/
def Ctx.verifierTexts (Γ : Ctx) (C : Center) (pw PID : Nat) : Set Text :=
  {text [pw, C.sk], text [C.sk, Γ.sm3Nat [pw, C.sk], PID]}

/-- Where the hash has no collision on the texts involved, a verifier determines its password. -/
theorem Ctx.verifier_inj {pw pw' PID : Nat}
    (hfree : Set.InjOn Γ.sm3 (Γ.verifierTexts C pw PID ∪ Γ.verifierTexts C pw' PID))
    (h : Γ.verifier C pw PID = Γ.verifier C pw' PID) : pw = pw' := by
  have htext := hfree (Or.inl (Or.inr rfl)) (Or.inr (Or.inr rfl)) h
  have hhash : Γ.sm3Nat [pw, C.sk] = Γ.sm3Nat [pw', C.sk] := by
    have hconcat : Decimal.concat ([C.sk, Γ.sm3Nat [pw, C.sk]] ++ [PID]) =
      Decimal.concat ([C.sk, Γ.sm3Nat [pw', C.sk]] ++ [PID]) := toDigits_inj.mp htext
    exact Decimal.concat_pair_inj (Decimal.concat_append_inj hconcat)
  have htext' := hfree (Or.inl (Or.inl rfl)) (Or.inr (Or.inl rfl)) hhash
  have hconcat : Decimal.concat ([pw] ++ [C.sk]) = Decimal.concat ([pw'] ++ [C.sk]) := toDigits_inj.mp htext'
  have hpw := Decimal.concat_append_inj hconcat
  rwa [Decimal.concat_singleton, Decimal.concat_singleton] at hpw

end Hash

/-! ## Admissions -/

section Admits

variable {Γ : Ctx} {C : Center} {s : Server} {request : Request} {QID QPW QA a : Nat}

/-- `auth_request_handler` answers a request with status 200. -/
def Ctx.Admits (Γ : Ctx) (C : Center) (request : Request) (drawn : Nat) (s : Server) : Prop :=
  ∃ response s', Γ.authRequestHandler C request drawn s = .ok (response, s') ∧ response.status = 200

/-- A request on naturals is admitted when its conversions are within the limit and its three numbers fit one record. -/
theorem Ctx.admits_iff (hnum : Γ.Numerals s.people) (hreq : request.AuthFields QID QPW QA) :
    Γ.Admits C request a s ↔
      ∃ people, s.people = some people ∧ Γ.AuthFits C people QID QPW QA a ∧
        ∃ person, findPerson people (C.recover QID) = some person ∧
          person.A = Nat.toDigits 10 (C.mask (C.recover QA)) ∧
            person.Auth = Nat.toDigits 10 (Γ.verifier C (C.recover QPW) (C.recover QID)) := by
  have hanswer : ∀ people, s.people = some people → Γ.AuthFits C people QID QPW QA a →
      Γ.authRequestHandler C request a s = .ok (Γ.authAnswer C people QID QPW QA a s) := by
    intro people hpeople hfits
    rw [hpeople] at hnum
    exact Ctx.authRequestHandler_natCast hreq hfits hpeople fun _ hfind => hnum.of_find hfind
  constructor
  · rintro ⟨response, s', hok, hstatus⟩
    obtain ⟨people, hpeople, hfits⟩ := Ctx.authFits_of_ok hreq hnum hok
    rw [hanswer people hpeople hfits, Except.ok.injEq] at hok
    refine ⟨people, hpeople, hfits, ?_⟩
    unfold Ctx.authAnswer at hok
    rcases hout : Γ.authOutcome C people QID QPW QA s with ⟨result, s₁⟩
    rw [hout] at hok
    cases result with
    | rejected =>
      cases hok
      exact absurd hstatus (by decide)
    | unknown =>
      cases hok
      exact absurd hstatus (by decide)
    | accepted A1 Q => exact (Ctx.authOutcome_accepted hout).2.2.2
  · rintro ⟨people, hpeople, hfits, person, hfind, hA, hAuth⟩
    refine ⟨_, _, hanswer people hpeople hfits, ?_⟩
    simp only [Ctx.authOutcome, hfind, if_pos hA, if_pos hAuth]
    rfl

/-- A request is admitted by the one record of a registration when its pseudonym, its mask and its verifier are in it. -/
theorem Ctx.admits_registered_iff {uid pw Bio L : Nat} (hfits : Γ.RegisterFits C uid pw Bio L)
    (hpeople : s.people = some [Γ.personOf C uid pw Bio L]) (hreq : request.AuthFields QID QPW QA) :
    Γ.Admits C request a s ↔
      Γ.AuthFits C [Γ.personOf C uid pw Bio L] QID QPW QA a ∧ C.recover QID = Γ.pseudonym uid L Bio ∧
        C.mask (C.recover QA) = C.mask (Γ.parameter uid pw Bio L) ∧
          Γ.verifier C (C.recover QPW) (Γ.pseudonym uid L Bio) = Γ.verifier C pw (Γ.pseudonym uid L Bio) := by
  have hnum : Γ.Numerals s.people := by
    rw [hpeople]
    intro person hmem
    rw [Option.getD_some, List.mem_singleton] at hmem
    rw [hmem]
    exact ⟨⟨_, rfl, hfits.mask⟩, ⟨_, rfl, hfits.record⟩⟩
  have hfind : ∀ PID person, findPerson [Γ.personOf C uid pw Bio L] PID = some person ↔
      PID = Γ.pseudonym uid L Bio ∧ Γ.personOf C uid pw Bio L = person := by
    intro PID person
    unfold findPerson
    rw [List.find?_singleton]
    by_cases hname : PID = Γ.pseudonym uid L Bio
    · simp [hname, Ctx.personOf]
    · have hne : ¬Nat.toDigits 10 (Γ.pseudonym uid L Bio) = Nat.toDigits 10 PID :=
        fun h => hname (toDigits_inj.mp h).symm
      simp [hname, Ctx.personOf, hne]
  rw [Ctx.admits_iff hnum hreq]
  constructor
  · rintro ⟨people, hstore, hauth, person, hperson, hA, hAuth⟩
    rw [hpeople, Option.some.injEq] at hstore
    subst hstore
    obtain ⟨hPID, rfl⟩ := (hfind _ _).mp hperson
    rw [hPID] at hAuth
    exact ⟨hauth, hPID, (toDigits_inj.mp hA).symm, (toDigits_inj.mp hAuth).symm⟩
  · rintro ⟨hauth, hPID, hA, hAuth⟩
    refine ⟨_, hpeople, hauth, Γ.personOf C uid pw Bio L, (hfind _ _).mpr ⟨hPID, rfl⟩, ?_, ?_⟩
    · rw [hA]
      rfl
    · rw [hPID, hAuth]
      rfl

end Admits

end AuthVideo
