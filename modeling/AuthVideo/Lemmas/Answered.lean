import AuthVideo.Lemmas.Server

/-!
# What an answered request leaves

Every request, whatever its fields: when `process_request` returns, the answer and the server that it leaves are one of five.
Invariants of the centre are proved from this statement, never from the handlers.
-/

namespace AuthVideo

/-! ## Values that a returning call has -/

/-- A hash is a natural. -/
theorem Ctx.sm3Hash_nat {Γ : Ctx} {m z : Int} (h : Γ.sm3Hash m = .ok z) : ∃ n : Nat, z = n := by
  obtain ⟨t, -, ht⟩ := bind_eq_ok.mp h
  exact ⟨Γ.sm3 t, by cases ht; rfl⟩

/-- A hash of a concatenation is a natural. -/
theorem Ctx.sm3Cat_nat {Γ : Ctx} {vs : List (Option Int)} {z : Int} (h : Γ.sm3Cat vs = .ok z) : ∃ n : Nat, z = n := by
  obtain ⟨m, -, hm⟩ := bind_eq_ok.mp h
  exact Ctx.sm3Hash_nat hm

/-- The text of a natural is a numeral within the limit. -/
theorem Ctx.numeral_of_str {Γ : Ctx} {n : Nat} {t : Text} (h : Γ.str (n : Int) = .ok t) : Γ.Numeral t := by
  rw [Ctx.str_natCast] at h
  split at h
  · rename_i hfits
    cases h
    exact ⟨n, rfl, hfits⟩
  · cases h

/-- `user_register` adds one record, whose texts are numerals. -/
theorem Ctx.userRegister_adds {Γ : Ctx} {C : Center} {uid pw Bio : Option Int} {L : Nat} {s s' : Server}
    {reg : Registration} (h : Γ.userRegister C uid pw Bio L s = .ok (reg, s')) :
    ∃ person : Person, Γ.Numeral person.A ∧ Γ.Numeral person.Auth ∧
      s' = { s with people := some (s.people.getD [] ++ [person]) } := by
  unfold Ctx.userRegister at h
  simp only [bind_eq_ok] at h
  obtain ⟨k, -, j, -, PID, -, RPW, -, hash, hhash, Auth, hAuth, pidText, -, Atext, hAtext, authText, hauthText, people,
    hpeople, h⟩ := h
  obtain ⟨m, rfl⟩ := Ctx.sm3Hash_nat hhash
  obtain ⟨auth, rfl⟩ := Ctx.sm3Cat_nat hAuth
  rw [Mask.xor_natCast, Center.chebyshevMatrix_pk] at hAtext
  refine ⟨⟨pidText, Atext, authText⟩, Ctx.numeral_of_str hAtext, Ctx.numeral_of_str hauthText, ?_⟩
  cases h
  cases hstore : s.people <;> rw [hstore] at hpeople <;> cases hpeople <;> rfl

/-- The parameter that a session has after a request: the old one, or the one that the centre reads out of the request. -/
def Center.ParameterOf (C : Center) (QA : Option Int) (s : Server) (A : Option Int) : Prop :=
  A = s.A ∨ ∃ qa, QA = some qa ∧ A = some (chebyshevMatrix C.e qa C.N)

/-- `user_auth` changes at most the parameter of the session, and takes the received one when it accepts. -/
theorem Ctx.userAuth_leaves {Γ : Ctx} {C : Center} {QID QPW QA : Option Int} {HM1 : Int} {s s' : Server}
    {result : AuthResult} (h : Γ.userAuth C QID QPW QA HM1 s = .ok (result, s')) :
    (∃ A, C.ParameterOf QA s A ∧ s' = { s with A := A }) ∧
      ∀ A1 Q, result = .accepted A1 Q →
        QID = some Q ∧ ∃ qa, QA = some qa ∧ A1 = chebyshevMatrix C.e qa C.N ∧ s' = { s with A := some A1 } := by
  unfold Ctx.userAuth at h
  simp only [bind_eq_ok] at h
  obtain ⟨HM11, -, h⟩ := h
  split at h
  · simp only [bind_eq_ok, asInt_eq_ok] at h
    obtain ⟨qid, rfl, qa, rfl, name, -, found, -, h⟩ := h
    split at h
    · cases h
      exact ⟨⟨s.A, .inl rfl, rfl⟩, fun _ _ hres => by cases hres⟩
    · split at h
      · simp only [bind_eq_ok, asInt_eq_ok] at h
        obtain ⟨qpw, rfl, RPW1, -, Auth1, -, h⟩ := h
        split at h
        · obtain ⟨q, hq, h⟩ := bind_eq_ok.mp h
          cases h
          refine ⟨⟨_, .inr ⟨qa, rfl, rfl⟩, rfl⟩, ?_⟩
          intro A1 Q hres
          cases hres
          exact ⟨asInt_eq_ok.mp hq, qa, rfl, rfl, rfl⟩
        · cases h
          exact ⟨⟨_, .inr ⟨qa, rfl, rfl⟩, rfl⟩, fun _ _ hres => by cases hres⟩
      · cases h
        exact ⟨⟨s.A, .inl rfl, rfl⟩, fun _ _ hres => by cases hres⟩
  · cases h
    exact ⟨⟨s.A, .inl rfl, rfl⟩, fun _ _ hres => by cases hres⟩

/-! ## The five answers -/

/-- A request is answered with a response, and the server goes on from another state. -/
inductive Ctx.Answered (Γ : Ctx) (C : Center) (request : Request) (drawn : Nat) (s : Server) : Response → Server → Prop
  /-- A device is registered: one record more. -/
  | registered (reg : Registration) (person : Person) (hact : request.action = some "register")
      (hA : Γ.Numeral person.A) (hAuth : Γ.Numeral person.Auth) :
      Γ.Answered C request drawn s ⟨200, some "register_ack", "注册成功", some (.registerAck reg)⟩
        { s with people := some (s.people.getD [] ++ [person]) }
  /-- A device is refused: at most the parameter of the session is another. -/
  | refused (message : String) (A : Option Int) (hact : request.action = some "auth_request")
      (hA : C.ParameterOf (request.get "QA") s A) :
      Γ.Answered C request drawn s ⟨400, some "SharedKey_Gen_request", message, none⟩ { s with A := A }
  /-- A device is admitted: the session takes its parameter, its pseudonym and the nonce that is drawn. -/
  | admitted (QID QA HM2 : Int) (hact : request.action = some "auth_request") (hQID : request.get "QID" = some QID)
      (hQA : request.get "QA" = some QA) :
      Γ.Answered C request drawn s
        ⟨200, some "SharedKey_Gen_request", "发送共享密钥请求",
          some (.sharedKeyGenRequest (Int.xor QID (chebyshevMatrix (chebyshevMatrix C.e QA C.N) C.pk C.N))
            (Int.xor (chebyshevMatrix (chebyshevMatrix C.e QA C.N) C.pk C.N) drawn) HM2)⟩
        { s with A := some (chebyshevMatrix C.e QA C.N), a := some (drawn : Int), QID := some QID }
  /-- A key is confirmed against the session, which stays. -/
  | confirmed (A a N2 TC QID2 TC1 KS QID3 HM5 : Int) (hact : request.action = some "SharedKey_Gen_response")
      (hA : s.A = some A) (ha : s.a = some a) (hN2 : request.get "N2" = some N2) (hTC : request.get "TC" = some TC)
      (hQID2 : request.get "QID2" = some QID2) (hQID : s.QID = some (chebyshevMatrix C.e QID2 C.N))
      (hnonce : let b1 := Int.xor (chebyshevMatrix A C.pk C.N) N2
        (chebyshevMatrix a C.pk C.N * chebyshevMatrix a C.pk C.N +
            chebyshevMatrix b1 C.pk C.N * chebyshevMatrix b1 C.pk C.N + TC * TC) % C.N =
          (2 * chebyshevMatrix a C.pk C.N * chebyshevMatrix b1 C.pk C.N * TC + 1) % C.N)
      (hKS : Γ.sm3Cat [some a, some (Int.xor (chebyshevMatrix A C.pk C.N) N2), some (chebyshevMatrix A C.pk C.N)] =
        .ok KS) :
      Γ.Answered C request drawn s
        ⟨200, some "SharedKey_Gen_Finish", "共享密钥生成成功", some (.sharedKeyGenFinish TC1 KS QID3 HM5)⟩ s
  /-- An action that is none of the three. -/
  | unknown (hreg : request.action ≠ some "register") (hauth : request.action ≠ some "auth_request")
      (hkey : request.action ≠ some "SharedKey_Gen_response") :
      Γ.Answered C request drawn s ⟨400, none, "未知操作类型", none⟩ s

theorem Ctx.registerHandler_answered {Γ : Ctx} {C : Center} {request : Request} {drawn : Nat} {s s' : Server}
    {response : Response} (hact : request.action = some "register")
    (h : Γ.registerHandler C request drawn s = .ok (response, s')) : Γ.Answered C request drawn s response s' := by
  obtain ⟨⟨reg, s₁⟩, hreg, h⟩ := bind_eq_ok.mp h
  cases h
  obtain ⟨person, hA, hAuth, rfl⟩ := Ctx.userRegister_adds hreg
  exact .registered reg person hact hA hAuth

theorem Ctx.authRequestHandler_answered {Γ : Ctx} {C : Center} {request : Request} {drawn : Nat} {s s' : Server}
    {response : Response} (hact : request.action = some "auth_request")
    (h : Γ.authRequestHandler C request drawn s = .ok (response, s')) : Γ.Answered C request drawn s response s' := by
  unfold Ctx.authRequestHandler at h
  obtain ⟨HM1, -, h⟩ := bind_eq_ok.mp h
  obtain ⟨⟨result, s₁⟩, hauth, h⟩ := bind_eq_ok.mp h
  obtain ⟨⟨A, hA, hs₁⟩, haccepted⟩ := Ctx.userAuth_leaves hauth
  cases result with
  | rejected =>
    cases h
    exact hs₁ ▸ .refused _ A hact hA
  | unknown =>
    cases h
    exact hs₁ ▸ .refused _ A hact hA
  | accepted A1 Q =>
    obtain ⟨hQID, qa, hQA, rfl, rfl⟩ := haccepted A1 Q rfl
    obtain ⟨⟨⟨QID1, N1, HM2⟩, s₂⟩, hgen, h⟩ := bind_eq_ok.mp h
    obtain ⟨_, -, hgen⟩ := bind_eq_ok.mp hgen
    cases hgen
    cases h
    exact .admitted Q qa _ hact hQID hQA

/-- `SharedKey_Gen2` goes through all of its checks with this session and these fields, and makes these two hashes. -/
structure Ctx.PassesGen2 (Γ : Ctx) (C : Center) (s : Server) (N2 TC QID2 HM3 : Option Int) (A a n2 tc qid2 KS HM5 : Int) :
    Prop where
  stored : s.A = some A
  drawn : s.a = some a
  N2_eq : N2 = some n2
  TC_eq : TC = some tc
  QID2_eq : QID2 = some qid2
  tag : ∃ HM4, Γ.sm3Cat [N2, TC, QID2] = .ok HM4 ∧ some HM4 = HM3
  pseudonym : s.QID = some (chebyshevMatrix C.e qid2 C.N)
  nonce : let b1 := Int.xor (chebyshevMatrix A C.pk C.N) n2
    (chebyshevMatrix a C.pk C.N * chebyshevMatrix a C.pk C.N +
        chebyshevMatrix b1 C.pk C.N * chebyshevMatrix b1 C.pk C.N + tc * tc) % C.N =
      (2 * chebyshevMatrix a C.pk C.N * chebyshevMatrix b1 C.pk C.N * tc + 1) % C.N
  key : Γ.sm3Cat [some a, some (Int.xor (chebyshevMatrix A C.pk C.N) n2), some (chebyshevMatrix A C.pk C.N)] = .ok KS
  reply : Γ.sm3Cat [some (chebyshevMatrix (a + Int.xor (chebyshevMatrix A C.pk C.N) n2) C.pk C.N),
    some (Int.xor qid2 (chebyshevMatrix A C.pk C.N))] = .ok HM5

/-- What `SharedKey_Gen2` has done when it returns a key. -/
theorem Ctx.sharedKeyGen2_eq_some {Γ : Ctx} {C : Center} {s : Server} {N2 TC QID2 HM3 : Option Int} {TC1 KS QID3 HM5 : Int}
    (h : Γ.sharedKeyGen2 C N2 TC QID2 HM3 s = .ok (some (TC1, KS, QID3, HM5))) :
    ∃ A a n2 tc qid2, Γ.PassesGen2 C s N2 TC QID2 HM3 A a n2 tc qid2 KS HM5 ∧
      TC1 = chebyshevMatrix (a + Int.xor (chebyshevMatrix A C.pk C.N) n2) C.pk C.N ∧
      QID3 = Int.xor qid2 (chebyshevMatrix A C.pk C.N) := by
  unfold Ctx.sharedKeyGen2 at h
  obtain ⟨HM4, hHM4, h⟩ := bind_eq_ok.mp h
  split at h
  · rename_i htag
    simp only [bind_eq_ok, asInt_eq_ok, attr_eq_ok] at h
    obtain ⟨A, hA, n2, hn2, qid2, hqid2, QID, hQID, h⟩ := h
    split at h
    · rename_i hsame
      simp only [bind_eq_ok, asInt_eq_ok, attr_eq_ok] at h
      obtain ⟨a, ha, tc, htc, h⟩ := h
      split at h
      · rename_i hnonce
        simp only [bind_eq_ok] at h
        obtain ⟨KS', hKS, HM5', hHM5, h⟩ := h
        cases h
        exact ⟨A, a, n2, tc, qid2, ⟨hA, ha, hn2, htc, hqid2, ⟨HM4, hHM4, htag⟩, hsame ▸ hQID, hnonce, hKS, hHM5⟩, rfl, rfl⟩
      · cases h
    · cases h
  · cases h

theorem Ctx.sharedKeyGenResponseHandler_answered {Γ : Ctx} {C : Center} {request : Request} {drawn : Nat} {s s' : Server}
    {response : Response} (hact : request.action = some "SharedKey_Gen_response")
    (h : Γ.sharedKeyGenResponseHandler C request s = .ok (response, s')) : Γ.Answered C request drawn s response s' := by
  unfold Ctx.sharedKeyGenResponseHandler at h
  obtain ⟨result, hgen, h⟩ := bind_eq_ok.mp h
  cases result with
  | none => cases h
  | some keys =>
    obtain ⟨TC1, KS, QID3, HM5⟩ := keys
    obtain ⟨A, a, n2, tc, qid2, hpass, -⟩ := Ctx.sharedKeyGen2_eq_some hgen
    cases h
    exact .confirmed A a n2 tc qid2 TC1 KS QID3 HM5 hact hpass.stored hpass.drawn hpass.N2_eq hpass.TC_eq hpass.QID2_eq
      hpass.pseudonym hpass.nonce hpass.key

/-- Every answered request is answered in one of the five ways. -/
theorem Ctx.processRequest_answered {Γ : Ctx} {C : Center} {request : Request} {drawn : Nat} {s s' : Server}
    {response : Response} (h : Γ.processRequest C request drawn s = .ok (response, s')) :
    Γ.Answered C request drawn s response s' := by
  unfold Ctx.processRequest at h
  split at h
  · rename_i hact
    exact Ctx.registerHandler_answered hact h
  · rename_i hreg
    split at h
    · rename_i hact
      exact Ctx.authRequestHandler_answered hact h
    · rename_i hauth
      split at h
      · rename_i hact
        exact Ctx.sharedKeyGenResponseHandler_answered hact h
      · rename_i hkey
        cases h
        exact .unknown hreg hauth hkey

end AuthVideo
