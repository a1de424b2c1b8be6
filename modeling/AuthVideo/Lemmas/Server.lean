import AuthVideo.Lemmas.Chebyshev
import AuthVideo.Lemmas.Python
import AuthVideo.Server

/-!
# What the centre answers

`Answered` says what an answered request can have been answered with and what it left behind, for every request. On requests
whose fields are naturals the functions of the centre are closed expressions, and they return exactly when their conversions
are within the interpreter's limit and the checks that end in an exception pass.
-/

namespace AuthVideo

/-! ## Routing -/

theorem Ctx.processRequest_register {Γ : Ctx} {C : Center} {request : Request} (h : request.action = some "register")
    (drawn : Nat) (s : Server) : Γ.processRequest C request drawn s = Γ.registerHandler C request drawn s := by
  rw [Ctx.processRequest, if_pos h]

theorem Ctx.processRequest_auth {Γ : Ctx} {C : Center} {request : Request} (h : request.action = some "auth_request")
    (drawn : Nat) (s : Server) : Γ.processRequest C request drawn s = Γ.authRequestHandler C request drawn s := by
  rw [Ctx.processRequest, if_neg (by simp [h]), if_pos h]

theorem Ctx.processRequest_confirm {Γ : Ctx} {C : Center} {request : Request}
    (h : request.action = some "SharedKey_Gen_response") (drawn : Nat) (s : Server) :
    Γ.processRequest C request drawn s = Γ.sharedKeyGenResponseHandler C request s := by
  rw [Ctx.processRequest, if_neg (by simp [h]), if_neg (by simp [h]), if_pos h]

/-! ## The centre's maps on naturals -/

namespace Center

theorem N_pos (C : Center) : 0 < C.N := Nat.mul_pos C.p_pos C.q_pos

/-- The mask `T_A(pk)` that the two sides share. -/
def mask (C : Center) (A : Nat) : Nat := chebNat A (chebNat C.sk C.x C.N) C.N

/-- What the centre reads out of a received value with its index `e`. -/
def recover (C : Center) (v : Nat) : Nat := chebNat C.e v C.N

@[simp] theorem chebyshevMatrix_pk (C : Center) (A : Nat) : chebyshevMatrix A C.pk C.N = (C.mask A : Int) := by
  rw [pk, chebyshevMatrix_natCast C.N_pos, chebyshevMatrix_natCast C.N_pos, mask]

@[simp] theorem chebyshevMatrix_e (C : Center) (v : Nat) : chebyshevMatrix C.e v C.N = (C.recover v : Int) :=
  chebyshevMatrix_natCast C.N_pos C.e v

end Center

/-- The pseudonym of a registration. -/
def Ctx.pseudonym (Γ : Ctx) (uid L Bio : Nat) : Nat := Γ.sm3Nat [uid, L, Bio]

/-- The parameter `A` of a registration. -/
def Ctx.parameter (Γ : Ctx) (uid pw Bio L : Nat) : Nat := Γ.sm3Nat [uid, pw, Bio] ^^^ L

/-- The verifier `Auth` of a password and a pseudonym. -/
def Ctx.verifier (Γ : Ctx) (C : Center) (pw PID : Nat) : Nat := Γ.sm3Nat [C.sk, Γ.sm3Nat [pw, C.sk], PID]

/-! ## Hashes of two and three naturals -/

theorem Ctx.sm3Cat_two (Γ : Ctx) (m n : Nat) :
    Γ.sm3Cat [some (m : Int), some (n : Int)] =
      if Γ.Fits [m, n] then .ok (Γ.sm3Nat [m, n] : Nat) else .error .valueError :=
  Ctx.sm3Cat_fields Γ [m, n] (by simp)

theorem Ctx.sm3Cat_three (Γ : Ctx) (m n k : Nat) :
    Γ.sm3Cat [some (m : Int), some (n : Int), some (k : Int)] =
      if Γ.Fits [m, n, k] then .ok (Γ.sm3Nat [m, n, k] : Nat) else .error .valueError :=
  Ctx.sm3Cat_fields Γ [m, n, k] (by simp)

/-! ## Registration -/

/-- The conversions of a registration are within the limit. -/
structure Ctx.RegisterFits (Γ : Ctx) (C : Center) (uid pw Bio L : Nat) : Prop where
  password : Γ.Fits [pw, C.sk]
  identity : Γ.Fits [uid, pw, Bio]
  pseudonym : Γ.Fits [uid, L, Bio]
  verifier : Γ.Fits [C.sk, Γ.sm3Nat [pw, C.sk], Γ.pseudonym uid L Bio]
  mask : Γ.Fits [C.mask (Γ.parameter uid pw Bio L)]
  record : Γ.Fits [Γ.verifier C pw (Γ.pseudonym uid L Bio)]

/-- The three fields of a registration request. -/
structure Request.RegisterFields (request : Request) (uid pw Bio : Nat) : Prop where
  userid : request.get "userid" = some (uid : Int)
  password : request.get "password" = some (pw : Int)
  Bio : request.get "Bio" = some (Bio : Int)

/-- The record that a registration stores. -/
def Ctx.personOf (Γ : Ctx) (C : Center) (uid pw Bio L : Nat) : Person :=
  ⟨Nat.toDigits 10 (Γ.pseudonym uid L Bio), Nat.toDigits 10 (C.mask (Γ.parameter uid pw Bio L)),
    Nat.toDigits 10 (Γ.verifier C pw (Γ.pseudonym uid L Bio))⟩

/-- `user_register` on naturals: what it returns and the record that it adds. -/
theorem Ctx.userRegister_natCast {Γ : Ctx} {C : Center} {uid pw Bio L : Nat} (h : Γ.RegisterFits C uid pw Bio L)
    (s : Server) :
    Γ.userRegister C (some (uid : Int)) (some (pw : Int)) (some (Bio : Int)) L s =
      .ok (⟨Γ.parameter uid pw Bio L, modInverse C.e C.n, C.N, C.x, C.pk, L⟩,
        { s with people := some (s.people.getD [] ++ [Γ.personOf C uid pw Bio L]) }) := by
  have hk : Γ.cat [some (pw : Int), some (C.sk : Int)] = .ok (Decimal.concat [pw, C.sk] : Nat) :=
    (Ctx.cat_fields Γ [pw, C.sk] (by simp)).trans (if_pos h.password)
  have hj : Γ.cat [some (uid : Int), some (pw : Int), some (Bio : Int)] = .ok (Decimal.concat [uid, pw, Bio] : Nat) :=
    (Ctx.cat_fields Γ [uid, pw, Bio] (by simp)).trans (if_pos h.identity)
  have hPID : Γ.Fits [Γ.sm3Nat [uid, L, Bio]] := h.verifier.of_mem (by simp [Ctx.pseudonym])
  have hmask : Γ.Fits [C.mask (Γ.sm3Nat [uid, pw, Bio] ^^^ L)] := h.mask
  have hverifier : Γ.Fits [C.sk, Γ.sm3Nat [pw, C.sk], Γ.sm3Nat [uid, L, Bio]] := h.verifier
  have hrecord : Γ.Fits [Γ.sm3Nat [C.sk, Γ.sm3Nat [pw, C.sk], Γ.sm3Nat [uid, L, Bio]]] := h.record
  have hadd : ∀ A Auth pid : Text, addPerson pid A Auth (initializeJsonFile s.people) =
      .ok (some (s.people.getD [] ++ [⟨pid, A, Auth⟩])) := by
    intro A Auth pid
    cases s.people <;> rfl
  simp only [Ctx.userRegister, hk, hj, ok_bind, Ctx.sm3Cat_three, if_pos h.pseudonym,
    Ctx.sm3Hash_concat [pw, C.sk] (by simp) h.password,
    Ctx.sm3Hash_concat [uid, pw, Bio] (by simp) h.identity, Mask.xor_natCast, Center.chebyshevMatrix_pk,
    if_pos hverifier, Ctx.str_natCast, if_pos hPID, if_pos hmask, if_pos hrecord, hadd]
  rfl

/-- Without a limit on conversions every registration of naturals returns. -/
theorem Ctx.userRegister_of_noLimit {Γ : Ctx} (h : Γ.maxStrDigits = 0) (C : Center) (uid pw Bio L : Nat) (s : Server) :
    Γ.userRegister C (some (uid : Int)) (some (pw : Int)) (some (Bio : Int)) L s =
      .ok (⟨Γ.parameter uid pw Bio L, modInverse C.e C.n, C.N, C.x, C.pk, L⟩,
        { s with people := some (s.people.getD [] ++ [Γ.personOf C uid pw Bio L]) }) := by
  have hfits := Ctx.fits_of_noLimit h
  exact Ctx.userRegister_natCast ⟨hfits _, hfits _, hfits _, hfits _, hfits _, hfits _⟩ s

/-! ## The store -/

/-- A text is the numeral of a natural within the limit. -/
def Ctx.Numeral (Γ : Ctx) (t : Text) : Prop := ∃ n : Nat, t = Nat.toDigits 10 n ∧ Γ.Fits [n]

/-- The texts of every record are numerals, as `add_person` is given them. -/
def Ctx.Numerals (Γ : Ctx) (people : JsonFile) : Prop :=
  ∀ person ∈ people.getD [], Γ.Numeral person.A ∧ Γ.Numeral person.Auth

/-- A record that is found has numerals. -/
theorem Ctx.Numerals.of_find {Γ : Ctx} {people : List Person} (h : Γ.Numerals (some people)) {f : Person → Bool}
    {person : Person} (hfind : people.find? f = some person) : Γ.Numeral person.A ∧ Γ.Numeral person.Auth :=
  h person (List.mem_of_find?_eq_some hfind)

/-- Numerals of different numbers differ. -/
theorem toDigits_inj {m n : Nat} : Nat.toDigits 10 m = Nat.toDigits 10 n ↔ m = n := by
  constructor
  · intro h
    have hval := congrArg (fun t => Nat.ofDigitChars 10 t 0) h
    simpa using hval
  · rintro rfl
    rfl

/-- The record that `get_person_by_name` looks for. -/
def findPerson (people : List Person) (PID : Nat) : Option Person :=
  people.find? fun person => person.name = Nat.toDigits 10 PID

/-- A record that is found has the two numbers that its texts denote. -/
theorem Ctx.getPersonByName_some {Γ : Ctx} {people : List Person} {PID A Auth : Nat} {person : Person}
    (hfind : findPerson people PID = some person) (hA : person.A = Nat.toDigits 10 A) (hfitA : Γ.Fits [A])
    (hAuth : person.Auth = Nat.toDigits 10 Auth) (hfitAuth : Γ.Fits [Auth]) :
    Γ.getPersonByName (Nat.toDigits 10 PID) (some people) = .ok (some ((A : Int), (Auth : Int))) := by
  simp only [findPerson] at hfind
  simp only [Ctx.getPersonByName, hfind, hA, hAuth, Ctx.int_toDigits hfitA, Ctx.int_toDigits hfitAuth, ok_bind]
  rfl

/-- A name without a record. -/
theorem Ctx.getPersonByName_none {Γ : Ctx} {people : List Person} {PID : Nat} (hfind : findPerson people PID = none) :
    Γ.getPersonByName (Nat.toDigits 10 PID) (some people) = .ok none := by
  simp only [findPerson] at hfind
  simp only [Ctx.getPersonByName, hfind]

/-! ## Authentication -/

/-- The conversions of an authentication request are within the limit, as far as its checks lead. -/
structure Ctx.AuthFits (Γ : Ctx) (C : Center) (people : List Person) (QID QPW QA a : Nat) : Prop where
  fields : Γ.Fits [QID, QPW, QA]
  pseudonym : Γ.Fits [C.recover QID]
  password : ∀ person, findPerson people (C.recover QID) = some person →
    person.A = Nat.toDigits 10 (C.mask (C.recover QA)) →
      Γ.Fits [C.recover QPW, C.sk] ∧ Γ.Fits [C.sk, Γ.sm3Nat [C.recover QPW, C.sk], C.recover QID]
  reply : ∀ person, findPerson people (C.recover QID) = some person →
    person.A = Nat.toDigits 10 (C.mask (C.recover QA)) →
      person.Auth = Nat.toDigits 10 (Γ.verifier C (C.recover QPW) (C.recover QID)) →
        Γ.Fits [QID ^^^ C.mask (C.recover QA), C.mask (C.recover QA) ^^^ a]

/-- What `user_auth` decides on naturals, and the session that it leaves. -/
def Ctx.authOutcome (Γ : Ctx) (C : Center) (people : List Person) (QID QPW QA : Nat) (s : Server) : AuthResult × Server :=
  match findPerson people (C.recover QID) with
  | none => (.unknown, s)
  | some person =>
    if person.A = Nat.toDigits 10 (C.mask (C.recover QA)) then
      if person.Auth = Nat.toDigits 10 (Γ.verifier C (C.recover QPW) (C.recover QID)) then
        (.accepted (C.recover QA) QID, { s with A := some (C.recover QA : Int) })
      else (.rejected, { s with A := some (C.recover QA : Int) })
    else (.rejected, s)

/-- `user_auth` on naturals, with the tag that the handler computes. -/
theorem Ctx.userAuth_natCast {Γ : Ctx} {C : Center} {people : List Person} {QID QPW QA a : Nat}
    (h : Γ.AuthFits C people QID QPW QA a) {s : Server} (hpeople : s.people = some people)
    (hnum : ∀ person, findPerson people (C.recover QID) = some person → Γ.Numeral person.A ∧ Γ.Numeral person.Auth) :
    Γ.userAuth C (some (QID : Int)) (some (QPW : Int)) (some (QA : Int)) (Γ.sm3Nat [QID, QPW, QA] : Nat) s =
      .ok (Γ.authOutcome C people QID QPW QA s) := by
  obtain ⟨store, _, _, _⟩ := s
  obtain rfl : store = some people := hpeople
  have hfields : Γ.sm3Cat [some (QID : Int), some (QPW : Int), some (QA : Int)] = .ok (Γ.sm3Nat [QID, QPW, QA] : Nat) :=
    (Ctx.sm3Cat_three Γ QID QPW QA).trans (if_pos h.fields)
  simp only [Ctx.userAuth, hfields, ok_bind, if_true, asInt, Center.chebyshevMatrix_e, Center.chebyshevMatrix_pk,
    Ctx.str_natCast, if_pos h.pseudonym]
  cases hfind : findPerson people (C.recover QID) with
  | none =>
    rw [Ctx.getPersonByName_none hfind]
    simp only [Ctx.authOutcome, hfind]
    rfl
  | some person =>
    obtain ⟨⟨A, hA, hfitA⟩, Auth, hAuth, hfitAuth⟩ := hnum person hfind
    rw [Ctx.getPersonByName_some hfind hA hfitA hAuth hfitAuth]
    simp only [Ctx.authOutcome, hfind, hA, hAuth, toDigits_inj, ok_bind, Nat.cast_inj, eq_comm (a := A)]
    split
    · rename_i hmatch
      obtain ⟨hpw, hver⟩ := h.password person hfind (by rw [hA, hmatch])
      have hverifier : Γ.sm3Nat [C.sk, Γ.sm3Nat [C.recover QPW, C.sk], C.recover QID] =
        Γ.verifier C (C.recover QPW) (C.recover QID) := rfl
      simp only [Ctx.sm3Cat_two, if_pos hpw, Ctx.sm3Cat_three, if_pos hver, ok_bind, Nat.cast_inj, hverifier]
      by_cases hsame : Auth = Γ.verifier C (C.recover QPW) (C.recover QID)
      · rw [if_pos hsame, if_pos hsame]
        rfl
      · rw [if_neg hsame, if_neg hsame]
        rfl
    · rfl

/-- What an acceptance means: the record of the pseudonym holds the mask of the parameter and the verifier. -/
theorem Ctx.authOutcome_accepted {Γ : Ctx} {C : Center} {people : List Person} {QID QPW QA : Nat} {s s' : Server}
    {A1 Q : Int} (h : Γ.authOutcome C people QID QPW QA s = (.accepted A1 Q, s')) :
    A1 = (C.recover QA : Int) ∧ Q = (QID : Int) ∧ s' = { s with A := some (C.recover QA : Int) } ∧
      ∃ person, findPerson people (C.recover QID) = some person ∧
        person.A = Nat.toDigits 10 (C.mask (C.recover QA)) ∧
        person.Auth = Nat.toDigits 10 (Γ.verifier C (C.recover QPW) (C.recover QID)) := by
  unfold Ctx.authOutcome at h
  split at h
  · simp at h
  · rename_i person hfind
    split at h
    · rename_i hA
      split at h
      · rename_i hAuth
        simp only [Prod.mk.injEq, AuthResult.accepted.injEq] at h
        exact ⟨h.1.1.symm, h.1.2.symm, h.2.symm, person, hfind, hA, hAuth⟩
      · simp at h
    · simp at h

/-- `SharedKey_Gen` on naturals. -/
theorem Ctx.sharedKeyGen_natCast {Γ : Ctx} {C : Center} {QID A a : Nat} (h : Γ.Fits [QID ^^^ C.mask A, C.mask A ^^^ a])
    (s : Server) :
    Γ.sharedKeyGen C QID A a s =
      .ok (((QID ^^^ C.mask A : Nat), (C.mask A ^^^ a : Nat), (Γ.sm3Nat [QID ^^^ C.mask A, C.mask A ^^^ a] : Nat)),
        { s with a := some (a : Int), QID := some (QID : Int) }) := by
  simp only [Ctx.sharedKeyGen, Center.chebyshevMatrix_pk, Mask.xor_natCast, Ctx.sm3Cat_two, if_pos h, ok_bind]
  rfl

/-- The three fields of an authentication request. -/
structure Request.AuthFields (request : Request) (QID QPW QA : Nat) : Prop where
  QID : request.get "QID" = some (QID : Int)
  QPW : request.get "QPW" = some (QPW : Int)
  QA : request.get "QA" = some (QA : Int)

/-- The response that carries `QID1, N1, HM2`. -/
def Ctx.admission (Γ : Ctx) (C : Center) (QID A a : Nat) : Response :=
  ⟨200, some "SharedKey_Gen_request", "发送共享密钥请求", some (.sharedKeyGenRequest (QID ^^^ C.mask A : Nat)
    (C.mask A ^^^ a : Nat) (Γ.sm3Nat [QID ^^^ C.mask A, C.mask A ^^^ a] : Nat))⟩

/-- The answer to an authentication request on naturals. -/
def Ctx.authAnswer (Γ : Ctx) (C : Center) (people : List Person) (QID QPW QA a : Nat) (s : Server) : Response × Server :=
  match Γ.authOutcome C people QID QPW QA s with
  | (.rejected, s) => (⟨400, some "SharedKey_Gen_request", "认证失败，完整性未通过", none⟩, s)
  | (.unknown, s) => (⟨400, some "SharedKey_Gen_request", "用户不存在,PID错误", none⟩, s)
  | (.accepted _ _, s) =>
    (Γ.admission C QID (C.recover QA) a, { s with a := some (a : Int), QID := some (QID : Int) })

/-- `auth_request_handler` on naturals. -/
theorem Ctx.authRequestHandler_natCast {Γ : Ctx} {C : Center} {people : List Person} {QID QPW QA a : Nat}
    {request : Request} (hreq : request.AuthFields QID QPW QA) (h : Γ.AuthFits C people QID QPW QA a) {s : Server}
    (hpeople : s.people = some people)
    (hnum : ∀ person, findPerson people (C.recover QID) = some person → Γ.Numeral person.A ∧ Γ.Numeral person.Auth) :
    Γ.authRequestHandler C request a s = .ok (Γ.authAnswer C people QID QPW QA a s) := by
  simp only [Ctx.authRequestHandler, hreq.QID, hreq.QPW, hreq.QA, Ctx.sm3Cat_three, if_pos h.fields, ok_bind,
    Ctx.userAuth_natCast h hpeople hnum, Ctx.authAnswer]
  rcases hout : Γ.authOutcome C people QID QPW QA s with ⟨result, s'⟩
  cases result with
  | rejected => rfl
  | unknown => rfl
  | accepted A1 Q =>
    obtain ⟨rfl, rfl, -, person, hfind, hA, hAuth⟩ := Ctx.authOutcome_accepted hout
    simp only [Ctx.sharedKeyGen_natCast (h.reply person hfind hA hAuth), ok_bind]
    rfl

/-! ## Key confirmation -/

/-- The four fields of a key confirmation. -/
structure Request.ConfirmFields (request : Request) (N2 TC QID2 HM3 : Nat) : Prop where
  N2 : request.get "N2" = some (N2 : Int)
  TC : request.get "TC" = some (TC : Int)
  QID2 : request.get "QID2" = some (QID2 : Int)
  HM3 : request.get "HM3" = some (HM3 : Int)

/-- The cubic test of the nonces `a` and `b` on naturals. -/
def Center.NonceTest (C : Center) (a b TC : Nat) : Prop :=
  (C.mask a * C.mask a + C.mask b * C.mask b + TC * TC) % C.N = (2 * C.mask a * C.mask b * TC + 1) % C.N

instance (C : Center) (a b TC : Nat) : Decidable (C.NonceTest a b TC) := inferInstanceAs (Decidable (_ = _))

/-- The centre's session and a key confirmation pass every check of `SharedKey_Gen2`, with the conversions in the limit. -/
structure Ctx.Confirms (Γ : Ctx) (C : Center) (s : Server) (N2 TC QID2 HM3 A a : Nat) : Prop where
  parameter : s.A = some (A : Int)
  drawn : s.a = some (a : Int)
  pseudonym : s.QID = some (C.recover QID2 : Int)
  fields : Γ.Fits [N2, TC, QID2]
  tag : HM3 = Γ.sm3Nat [N2, TC, QID2]
  nonce : C.NonceTest a (C.mask A ^^^ N2) TC
  key : Γ.Fits [a, C.mask A ^^^ N2, C.mask A]
  reply : Γ.Fits [C.mask (a + (C.mask A ^^^ N2)), QID2 ^^^ C.mask A]

/-- The shared key, from the two nonces and the mask. -/
def Ctx.sharedKey (Γ : Ctx) (C : Center) (A a b : Nat) : Nat := Γ.sm3Nat [a, b, C.mask A]

/-- The response that carries `TC1, KS, QID3, HM5`. -/
def Ctx.finish (Γ : Ctx) (C : Center) (QID2 A a b : Nat) : Response :=
  ⟨200, some "SharedKey_Gen_Finish", "共享密钥生成成功", some (.sharedKeyGenFinish (C.mask (a + b) : Nat)
    (Γ.sharedKey C A a b : Nat) (QID2 ^^^ C.mask A : Nat) (Γ.sm3Nat [C.mask (a + b), QID2 ^^^ C.mask A] : Nat))⟩

/-- `SharedKey_Gen_response_handler` on naturals that pass. -/
theorem Ctx.sharedKeyGenResponseHandler_natCast {Γ : Ctx} {C : Center} {s : Server} {N2 TC QID2 HM3 A a : Nat}
    {request : Request} (hreq : request.ConfirmFields N2 TC QID2 HM3) (h : Γ.Confirms C s N2 TC QID2 HM3 A a) :
    Γ.sharedKeyGenResponseHandler C request s = .ok (Γ.finish C QID2 A a (C.mask A ^^^ N2), s) := by
  have hnonce : ((C.mask a : Int) * C.mask a + (C.mask (C.mask A ^^^ N2) : Int) * C.mask (C.mask A ^^^ N2) + TC * TC) %
      C.N = (2 * C.mask a * C.mask (C.mask A ^^^ N2) * TC + 1) % C.N := by
    exact_mod_cast h.nonce
  have hsum : chebyshevMatrix ((a : Int) + (C.mask A ^^^ N2 : Nat)) C.pk C.N = (C.mask (a + (C.mask A ^^^ N2)) : Int) := by
    rw [← Nat.cast_add, Center.chebyshevMatrix_pk]
  have hstep : Γ.sharedKeyGen2 C (request.get "N2") (request.get "TC") (request.get "QID2") (request.get "HM3") s =
      .ok (some ((C.mask (a + (C.mask A ^^^ N2)) : Nat), (Γ.sharedKey C A a (C.mask A ^^^ N2) : Nat),
        (QID2 ^^^ C.mask A : Nat), (Γ.sm3Nat [C.mask (a + (C.mask A ^^^ N2)), QID2 ^^^ C.mask A] : Nat))) := by
    simp only [Ctx.sharedKeyGen2, hreq.N2, hreq.TC, hreq.QID2, hreq.HM3, Ctx.sm3Cat_three, if_pos h.fields, ok_bind,
      h.tag, if_true, h.parameter, h.drawn, h.pseudonym, attr, asInt, Center.chebyshevMatrix_pk, Center.chebyshevMatrix_e,
      Mask.xor_natCast, if_pos hnonce, if_pos h.key, hsum, Ctx.sm3Cat_two, if_pos h.reply]
    rfl
  simp only [Ctx.sharedKeyGenResponseHandler, hstep, ok_bind]
  rfl

end AuthVideo
