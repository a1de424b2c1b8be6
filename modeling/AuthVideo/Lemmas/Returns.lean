import AuthVideo.Lemmas.Answered

/-!
# When a request on naturals is answered

The conditions under which `Lemmas/Server` evaluates the handlers are also necessary: a handler that returns has passed every
conversion and every check on its way.
-/

namespace AuthVideo

variable {Γ : Ctx} {C : Center} {s : Server}

/-! ## Conversions that returned -/

theorem Ctx.fits_of_cat (ns : List Nat) {z : Int} (hne : ns ≠ []) (h : Γ.cat (fields ns) = .ok z) :
    Γ.Fits ns ∧ z = (Decimal.concat ns : Nat) := by
  rw [Ctx.cat_fields Γ ns hne] at h
  split at h
  · rename_i hfits
    exact ⟨hfits, (Except.ok.inj h).symm⟩
  · cases h

theorem Ctx.fits_of_sm3Cat (ns : List Nat) {z : Int} (hne : ns ≠ []) (h : Γ.sm3Cat (fields ns) = .ok z) :
    Γ.Fits ns ∧ z = (Γ.sm3Nat ns : Nat) := by
  rw [Ctx.sm3Cat_fields Γ ns hne] at h
  split at h
  · rename_i hfits
    exact ⟨hfits, (Except.ok.inj h).symm⟩
  · cases h

theorem Ctx.fits_of_str {n : Nat} {t : Text} (h : Γ.str (n : Int) = .ok t) : Γ.Fits [n] ∧ t = Nat.toDigits 10 n := by
  rw [Ctx.str_natCast] at h
  split at h
  · rename_i hfits
    exact ⟨hfits, (Except.ok.inj h).symm⟩
  · cases h

/-! ## Handlers that returned -/

/-- A registration that returned has passed its conversions. -/
theorem Ctx.registerFits_of_ok {uid pw Bio L : Nat} {result : Registration × Server}
    (h : Γ.userRegister C (some (uid : Int)) (some (pw : Int)) (some (Bio : Int)) L s = .ok result) :
    Γ.RegisterFits C uid pw Bio L := by
  unfold Ctx.userRegister at h
  simp only [bind_eq_ok] at h
  obtain ⟨k, hk, j, hj, PID, hPID, RPW, hRPW, hash, hhash, Auth, hAuth, pidText, -, Atext, hAtext, authText, hauthText, -⟩ :=
    h
  obtain ⟨hpassword, rfl⟩ := Ctx.fits_of_cat [pw, C.sk] (by simp) hk
  obtain ⟨hidentity, rfl⟩ := Ctx.fits_of_cat [uid, pw, Bio] (by simp) hj
  obtain ⟨hpseudonym, rfl⟩ := Ctx.fits_of_sm3Cat [uid, L, Bio] (by simp) hPID
  obtain rfl : RPW = (Γ.sm3Nat [pw, C.sk] : Nat) :=
    Except.ok.inj (hRPW.symm.trans (Ctx.sm3Hash_concat [pw, C.sk] (by simp) hpassword))
  obtain rfl : hash = (Γ.sm3Nat [uid, pw, Bio] : Nat) :=
    Except.ok.inj (hhash.symm.trans (Ctx.sm3Hash_concat [uid, pw, Bio] (by simp) hidentity))
  obtain ⟨hverifier, rfl⟩ :=
    Ctx.fits_of_sm3Cat [C.sk, Γ.sm3Nat [pw, C.sk], Γ.sm3Nat [uid, L, Bio]] (by simp) hAuth
  rw [Mask.xor_natCast, Center.chebyshevMatrix_pk] at hAtext
  exact ⟨hpassword, hidentity, hpseudonym, hverifier, (Ctx.fits_of_str hAtext).1, (Ctx.fits_of_str hauthText).1⟩

/-- An authentication that returned had a file to look into, and has passed its conversions as far as its checks led. -/
theorem Ctx.authFits_of_ok {QID QPW QA a : Nat} {request : Request} {result : Response × Server}
    (hreq : request.AuthFields QID QPW QA) (hnum : Γ.Numerals s.people)
    (h : Γ.authRequestHandler C request a s = .ok result) :
    ∃ people, s.people = some people ∧ Γ.AuthFits C people QID QPW QA a := by
  simp only [Ctx.authRequestHandler, hreq.QID, hreq.QPW, hreq.QA] at h
  obtain ⟨HM1, hHM1, h⟩ := bind_eq_ok.mp h
  obtain ⟨⟨verdict, s₁⟩, hauth, h⟩ := bind_eq_ok.mp h
  obtain ⟨hfields, rfl⟩ := Ctx.fits_of_sm3Cat [QID, QPW, QA] (by simp) hHM1
  simp only [Ctx.userAuth, Ctx.sm3Cat_three, if_pos hfields, ok_bind, if_true, asInt, Center.chebyshevMatrix_e,
    Center.chebyshevMatrix_pk] at hauth
  obtain ⟨name, hname, hauth⟩ := bind_eq_ok.mp hauth
  obtain ⟨found, hfound, hauth⟩ := bind_eq_ok.mp hauth
  obtain ⟨hpseudonym, rfl⟩ := Ctx.fits_of_str hname
  cases hpeople : s.people with
  | none =>
    rw [hpeople] at hfound
    cases hfound
  | some people =>
    rw [hpeople] at hfound hnum
    -- the branch that the run took is the one of the record that the pseudonym has
    have hbranch : ∀ person, findPerson people (C.recover QID) = some person →
        person.A = Nat.toDigits 10 (C.mask (C.recover QA)) →
          (Γ.Fits [C.recover QPW, C.sk] ∧ Γ.Fits [C.sk, Γ.sm3Nat [C.recover QPW, C.sk], C.recover QID]) ∧
            (person.Auth = Nat.toDigits 10 (Γ.verifier C (C.recover QPW) (C.recover QID)) →
              Γ.Fits [QID ^^^ C.mask (C.recover QA), C.mask (C.recover QA) ^^^ a]) := by
      intro person hfind hA
      obtain ⟨⟨A, hAtext, hfitA⟩, Auth, hAuthText, hfitAuth⟩ := hnum.of_find hfind
      rw [Ctx.getPersonByName_some hfind hAtext hfitA hAuthText hfitAuth] at hfound
      cases hfound
      obtain rfl : C.mask (C.recover QA) = A := (toDigits_inj.mp (hAtext.symm.trans hA)).symm
      simp only [if_true] at hauth
      obtain ⟨RPW1, hRPW1, hauth⟩ := bind_eq_ok.mp hauth
      obtain ⟨Auth1, hAuth1, hauth⟩ := bind_eq_ok.mp hauth
      obtain ⟨hpw, rfl⟩ := Ctx.fits_of_sm3Cat [C.recover QPW, C.sk] (by simp) hRPW1
      obtain ⟨hver, rfl⟩ :=
        Ctx.fits_of_sm3Cat [C.sk, Γ.sm3Nat [C.recover QPW, C.sk], C.recover QID] (by simp) hAuth1
      refine ⟨⟨hpw, hver⟩, ?_⟩
      intro hsame
      obtain rfl : Auth = Γ.sm3Nat [C.sk, Γ.sm3Nat [C.recover QPW, C.sk], C.recover QID] :=
        toDigits_inj.mp (hAuthText.symm.trans hsame)
      rw [if_pos rfl] at hauth
      cases hauth
      obtain ⟨reply, hreply, -⟩ := bind_eq_ok.mp h
      simp only [Ctx.sharedKeyGen, Center.chebyshevMatrix_pk, Mask.xor_natCast] at hreply
      obtain ⟨tag, htag, -⟩ := bind_eq_ok.mp hreply
      exact (Ctx.fits_of_sm3Cat [QID ^^^ C.mask (C.recover QA), C.mask (C.recover QA) ^^^ a] (by simp) htag).1
    exact ⟨people, rfl, hfields, hpseudonym, fun person hfind hA => (hbranch person hfind hA).1,
      fun person hfind hA => (hbranch person hfind hA).2⟩

end AuthVideo
