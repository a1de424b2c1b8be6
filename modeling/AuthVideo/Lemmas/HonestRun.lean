import Mathlib.NumberTheory.LucasLehmer
import AuthVideo.Device
import AuthVideo.Lemmas.Server

/-!
# The honest run, value by value

The device and the centre exchange registration, authentication and key confirmation, and no message is changed on its way.
Every value of the run is a natural, so the run is a closed expression in what the two sides draw and the user types.
-/

namespace AuthVideo

/-- What an honest run assumes: the key of the centre is well made, the registered values are in range, the store holds no
record of the pseudonym yet, and the interpreter sets no limit on conversions. -/
structure Ctx.Honest (Γ : Ctx) (C : Center) (people : JsonFile) (uid pw Bio L : Nat) : Prop where
  p_prime : C.p.Prime
  q_prime : C.q.Prime
  p_odd : C.p ≠ 2
  q_odd : C.q ≠ 2
  distinct : C.p ≠ C.q
  modulus : 2 ^ 256 ≤ C.N
  coprime : Nat.gcd C.e C.n = 1
  password : pw < C.N
  drawn : L < 2 ^ 256
  fresh : ∀ person ∈ people.getD [], person.name ≠ decimal (Γ.pseudonym uid L Bio)
  noLimit : Γ.maxStrDigits = 0

/-- A hash into 256 bits, and no limit on conversions. -/
def sampleCtx : Ctx := ⟨fun t => Nat.ofDigitChars 10 t 0 % 2 ^ 256, fun _ => Nat.mod_lt _ (by decide), 0⟩

/-- A centre whose primes are 3 and the Mersenne prime of 521 bits. -/
def sampleCenter : Center := ⟨3, 2 ^ 521 - 1, 2, 5, 7, by decide, by decide +kernel⟩

/-- The assumptions are met: the first registration at the sample centre is honest. -/
theorem sampleHonest : sampleCtx.Honest sampleCenter none 1 2 3 4 where
  p_prime := Nat.prime_three
  q_prime := lucas_lehmer_sufficiency 521 (by norm_num) (by norm_num)
  p_odd := by decide +kernel
  q_odd := by decide +kernel
  distinct := by decide +kernel
  modulus := by decide +kernel
  coprime := by decide +kernel
  password := by decide +kernel
  drawn := by decide
  fresh := by simp
  noLimit := rfl

section Values

variable {Γ : Ctx} {C : Center} {people : JsonFile} {uid pw Bio L : Nat}

/-- What the device sends for a value, with the index that it was given. -/
def Center.sent (C : Center) (k v : Nat) : Nat := chebNat k v C.N

theorem Ctx.pseudonym_lt (h : Γ.Honest C people uid pw Bio L) : Γ.pseudonym uid L Bio < C.N :=
  Nat.lt_of_lt_of_le (Γ.sm3Nat_lt _) h.modulus

/-- The parameter is below the modulus, as the exclusive or of two numbers of 256 bits. -/
theorem Ctx.parameter_lt (h : Γ.Honest C people uid pw Bio L) : Γ.parameter uid pw Bio L < C.N :=
  Nat.lt_of_lt_of_le (Nat.xor_lt_two_pow (Γ.sm3Nat_lt _) h.drawn) h.modulus

theorem Center.sent_lt (C : Center) (k v : Nat) : C.sent k v < C.N := chebNat_lt C.N_pos k v

/-- An honest centre has an index for its devices, and reads with its own index what they send. -/
theorem Ctx.Honest.index (h : Γ.Honest C people uid pw Bio L) :
    ∃ k : Nat, modInverse C.e C.n = some (k : Int) ∧ ∀ v < C.N, C.recover (C.sent k v) = v := by
  obtain ⟨d, hd⟩ := modInverse_of_coprime h.coprime
  obtain ⟨k, rfl, hk⟩ := modInverse_order h.p_prime h.q_prime hd
  exact ⟨k, hd, fun v hv => chebNat_inverse h.p_prime h.q_prime h.p_odd h.q_odd h.distinct hk hv⟩

/-- The nonces pass the cubic test with the value that the device sends for their sum. -/
theorem Center.nonceTest_sum (C : Center) (a b : Nat) : C.NonceTest a b (C.mask (a + b)) := by
  have h := chebyshevMatrix_identity a b C.pk C.N
  simp only [Center.chebyshevMatrix_pk] at h
  unfold Center.NonceTest
  exact_mod_cast h

end Values

/-! ## The device -/

/-- The registration that the device receives. -/
def Ctx.registrationOf (Γ : Ctx) (C : Center) (k uid pw Bio L : Nat) : Registration :=
  ⟨Γ.parameter uid pw Bio L, some (k : Int), C.N, C.x, C.pk, L⟩

/-- `chebyshev_matrix` on the device, on a natural. -/
theorem Registration.chebyshev_natCast (reg : Registration) (C : Center) (hN : reg.N = C.N) (k v : Nat) :
    reg.chebyshev (some (k : Int)) (v : Int) = .ok (C.sent k v : Int) := by
  simp only [Registration.chebyshev, asInt, ok_bind, hN, if_neg C.N_pos.ne', Center.sent, chebyshevMatrix_natCast C.N_pos]

/-- The mask on the device. -/
theorem Registration.chebyshev_pk (reg : Registration) (C : Center) (hN : reg.N = C.N) (hpk : reg.pk = C.pk) (A : Nat) :
    reg.chebyshev (some (A : Int)) reg.pk = .ok (C.mask A : Int) := by
  simp only [Registration.chebyshev, asInt, ok_bind, hN, if_neg C.N_pos.ne', hpk, Center.chebyshevMatrix_pk]

section Device

variable {Γ : Ctx} {C : Center} {k uid pw Bio L : Nat} {u : User}

/-- `auth_pre` of the registered user: the self-authentication passes, and the three values are the sent ones. -/
theorem Ctx.authPre_natCast (hfits : ∀ ns, Γ.Fits ns) (hreg : u.reg = some (Γ.registrationOf C k uid pw Bio L)) :
    Γ.authPre uid pw Bio u =
      .ok (some ((C.sent k (Γ.pseudonym uid L Bio) : Int), (C.sent k pw : Int), (C.sent k (Γ.parameter uid pw Bio L) : Int)),
        { u with PID := some (Γ.pseudonym uid L Bio : Int), QID := some (C.sent k (Γ.pseudonym uid L Bio) : Int) }) := by
  have hcheb := fun v : Nat =>
    Registration.chebyshev_natCast (Γ.registrationOf C k uid pw Bio L) C rfl k v
  have hpseudonym : Γ.sm3Nat [uid, L, Bio] = Γ.pseudonym uid L Bio := rfl
  have hparameter : Γ.sm3Nat [uid, pw, Bio] ^^^ L = Γ.parameter uid pw Bio L := rfl
  have hd : (Γ.registrationOf C k uid pw Bio L).d = some (k : Int) := rfl
  have hL : (Γ.registrationOf C k uid pw Bio L).L = L := rfl
  have hA : (Γ.registrationOf C k uid pw Bio L).A = (Γ.parameter uid pw Bio L : Int) := rfl
  simp only [Ctx.authPre, hreg, attr, ok_bind, hL, hA, hd, Ctx.sm3Cat_three, if_pos (hfits _), Mask.xor_natCast,
    hpseudonym, hparameter, if_true, hcheb]
  rfl

/-- `Sharedkey_Gen` on an honest centre's message: both checks pass, and the nonce `a` comes out of its mask. -/
theorem Ctx.deviceSharedkeyGen_natCast (hfits : ∀ ns, Γ.Fits ns)
    (hreg : u.reg = some (Γ.registrationOf C k uid pw Bio L)) {QID : Nat} (hQID : u.QID = some (QID : Int)) (a b : Nat) :
    let mask := C.mask (Γ.parameter uid pw Bio L)
    Γ.deviceSharedkeyGen (QID ^^^ mask : Nat) (mask ^^^ a : Nat) (Γ.sm3Nat [QID ^^^ mask, mask ^^^ a] : Nat) b u =
      .ok (((mask ^^^ b : Nat), (C.mask (a + b) : Nat), (C.sent k QID : Nat),
          (Γ.sm3Nat [mask ^^^ b, C.mask (a + b), C.sent k QID] : Nat)),
        [(.tagHM2, true), (.pseudonym, true)],
        { u with tmpa1 := some (a : Int), b := some (b : Int), TA1 := some (C.mask a : Int),
                 TB := some (C.mask b : Int) }) := by
  intro mask
  have hcheb := Registration.chebyshev_natCast (Γ.registrationOf C k uid pw Bio L) C rfl k QID
  have hpk := fun A : Nat => Registration.chebyshev_pk (Γ.registrationOf C k uid pw Bio L) C rfl rfl A
  have hA : (Γ.registrationOf C k uid pw Bio L).A = (Γ.parameter uid pw Bio L : Int) := rfl
  have hd : (Γ.registrationOf C k uid pw Bio L).d = some (k : Int) := rfl
  simp only [Ctx.deviceSharedkeyGen, hreg, hQID, attr, ok_bind, hA, hd, hpk, Ctx.sm3Cat_two, Ctx.sm3Cat_three,
    if_pos (hfits _), Mask.xor_natCast, mask, Mask.natXor_cancel_middle, Mask.natXor_cancel_right, ← Nat.cast_add, hcheb,
    decide_true]
  rfl

/-- `Sharedkey_Gen2` on an honest centre's message: both checks pass, and the key is the one of the two nonces. -/
theorem Ctx.deviceSharedkeyGen2_natCast (hfits : ∀ ns, Γ.Fits ns)
    (hreg : u.reg = some (Γ.registrationOf C k uid pw Bio L)) {a b : Nat} (htmp : u.tmpa1 = some (a : Int))
    (hb : u.b = some (b : Int)) (hTA : u.TA1 = some (C.mask a : Int)) (hTB : u.TB = some (C.mask b : Int)) (QID3 : Nat) :
    Γ.deviceSharedkeyGen2 (C.mask (a + b) : Nat) QID3 (Γ.sm3Nat [C.mask (a + b), QID3] : Nat) u =
      .ok ((Γ.sharedKey C (Γ.parameter uid pw Bio L) a b : Nat), [(.tagHM5, true), (.nonce, true)],
        { u with a := some (a : Int) }) := by
  have hpk := fun A : Nat => Registration.chebyshev_pk (Γ.registrationOf C k uid pw Bio L) C rfl rfl A
  have hA : (Γ.registrationOf C k uid pw Bio L).A = (Γ.parameter uid pw Bio L : Int) := rfl
  have hN : (Γ.registrationOf C k uid pw Bio L).N = C.N := rfl
  have hnonce : ((C.mask a : Int) * C.mask a + C.mask b * C.mask b + C.mask (a + b) * C.mask (a + b)) % C.N =
      (2 * C.mask a * C.mask b * C.mask (a + b) + 1) % C.N := by
    exact_mod_cast C.nonceTest_sum a b
  simp only [Ctx.deviceSharedkeyGen2, hreg, htmp, hb, hTA, hTB, attr, ok_bind, hA, hN, hpk, Ctx.sm3Cat_two,
    Ctx.sm3Cat_three, if_pos (hfits _), if_neg C.N_pos.ne', hnonce, if_true, decide_true, Except.map]
  rfl

end Device

/-! ## The run -/

/-- What the two sides draw, and what the user types, in the three rounds of an honest run. -/
def honestRounds (uid pw Bio L a b : Nat) : List Round :=
  [⟨L, 0, [((uid : Int), (pw : Int), (Bio : Int))]⟩, ⟨a, b, []⟩, ⟨0, 0, []⟩]

/-- The response that carries the registration. -/
def Ctx.registered (Γ : Ctx) (C : Center) (k uid pw Bio L : Nat) : Response :=
  ⟨200, some "register_ack", "注册成功", some (.registerAck (Γ.registrationOf C k uid pw Bio L))⟩

/-- The six messages of an honest run. -/
def Ctx.honestTranscript (Γ : Ctx) (C : Center) (k uid pw Bio L a b : Nat) : List (Request × Response) :=
  let A := Γ.parameter uid pw Bio L
  let QID := C.sent k (Γ.pseudonym uid L Bio)
  let N2 := C.mask A ^^^ b
  let TC := C.mask (a + b)
  let QID2 := C.sent k QID
  [(registerRequest uid pw Bio, Γ.registered C k uid pw Bio L),
    (authRequest QID (C.sent k pw : Nat) (C.sent k A : Nat), Γ.admission C QID A a),
    (sharedKeyGenResponse N2 TC QID2 (Γ.sm3Nat [N2, TC, QID2] : Nat), Γ.finish C QID2 A a b)]

/-- The outcomes of the checks of an honest run, in the order in which the device makes them. -/
def honestVerdicts : List Verdict :=
  [(.selfAuth, true), (.tagHM2, true), (.pseudonym, true), (.tagHM5, true), (.nonce, true)]

section Run

variable {Γ : Ctx} {C : Center} {people : JsonFile} {uid pw Bio L : Nat}

/-- The centre after the registration of an honest run. -/
def Ctx.registeredServer (Γ : Ctx) (C : Center) (uid pw Bio L : Nat) (s : Server) : Server :=
  { s with people := some (s.people.getD [] ++ [Γ.personOf C uid pw Bio L]) }

/-- Round 1: the registration is answered. -/
theorem Ctx.Honest.register {s : Server} (h : Γ.Honest C s.people uid pw Bio L) {k : Nat}
    (hk : modInverse C.e C.n = some (k : Int)) :
    Γ.processRequest C (registerRequest uid pw Bio) L s =
      .ok (Γ.registered C k uid pw Bio L, Γ.registeredServer C uid pw Bio L s) := by
  have hregister := Ctx.userRegister_of_noLimit h.noLimit C uid pw Bio L s
  have huserid : (registerRequest uid pw Bio).get "userid" = some (uid : Int) := rfl
  have hpassword : (registerRequest uid pw Bio).get "password" = some (pw : Int) := rfl
  have hBio : (registerRequest uid pw Bio).get "Bio" = some (Bio : Int) := rfl
  rw [Ctx.processRequest_register rfl, Ctx.registerHandler, huserid, hpassword, hBio, hregister, hk]
  rfl

/-- The record of the pseudonym is the new one. -/
theorem Ctx.Honest.findPerson (h : Γ.Honest C people uid pw Bio L) :
    findPerson (people.getD [] ++ [Γ.personOf C uid pw Bio L]) (Γ.pseudonym uid L Bio) =
      some (Γ.personOf C uid pw Bio L) := by
  have hnone : (people.getD []).find? (fun person => person.name = Nat.toDigits 10 (Γ.pseudonym uid L Bio)) = none := by
    refine List.find?_eq_none.mpr fun person hmem => ?_
    simpa using h.fresh person hmem
  rw [AuthVideo.findPerson, List.find?_append, hnone, Option.none_or, List.find?_singleton]
  simp [Ctx.personOf]

/-- Whatever numbers an authentication request carries, the centre answers it after the registration. -/
theorem Ctx.Honest.answers {s : Server} (h : Γ.Honest C s.people uid pw Bio L) (hnum : Γ.Numerals s.people)
    (QID QPW QA a : Nat) :
    Γ.processRequest C (authRequest QID QPW QA) a (Γ.registeredServer C uid pw Bio L s) =
      .ok (Γ.authAnswer C (s.people.getD [] ++ [Γ.personOf C uid pw Bio L]) QID QPW QA a
        (Γ.registeredServer C uid pw Bio L s)) := by
  have hfits := Ctx.fits_of_noLimit h.noLimit
  have hnew : Γ.Numerals (some (s.people.getD [] ++ [Γ.personOf C uid pw Bio L])) := by
    intro person hmem
    rcases List.mem_append.mp hmem with hold | hnew
    · exact hnum person hold
    · rw [List.mem_singleton.mp hnew]
      exact ⟨⟨_, rfl, hfits _⟩, ⟨_, rfl, hfits _⟩⟩
  rw [Ctx.processRequest_auth rfl]
  exact Ctx.authRequestHandler_natCast ⟨rfl, rfl, rfl⟩
    ⟨hfits _, hfits _, fun _ _ _ => ⟨hfits _, hfits _⟩, fun _ _ _ _ => hfits _⟩ rfl fun _ hfind => hnew.of_find hfind

/-- Round 2: the authentication is accepted. -/
theorem Ctx.Honest.authenticate {s : Server} (h : Γ.Honest C s.people uid pw Bio L) {k : Nat}
    (hrecover : ∀ v < C.N, C.recover (C.sent k v) = v) (a : Nat) :
    let A := Γ.parameter uid pw Bio L
    let QID := C.sent k (Γ.pseudonym uid L Bio)
    Γ.processRequest C (authRequest QID (C.sent k pw : Nat) (C.sent k A : Nat)) a (Γ.registeredServer C uid pw Bio L s) =
      .ok (Γ.admission C QID A a,
        { Γ.registeredServer C uid pw Bio L s with A := some (A : Int), a := some (a : Int), QID := some (QID : Int) }) := by
  intro A QID
  have hfits := Ctx.fits_of_noLimit h.noLimit
  have hPID : C.recover QID = Γ.pseudonym uid L Bio := hrecover _ (Ctx.pseudonym_lt h)
  have hpw : C.recover (C.sent k pw) = pw := hrecover _ h.password
  have hA : C.recover (C.sent k A) = A := hrecover _ (Ctx.parameter_lt h)
  have hfind := h.findPerson
  have hreq : (authRequest QID (C.sent k pw : Nat) (C.sent k A : Nat)).AuthFields QID (C.sent k pw) (C.sent k A) :=
    ⟨rfl, rfl, rfl⟩
  have hauth : Γ.AuthFits C (s.people.getD [] ++ [Γ.personOf C uid pw Bio L]) QID (C.sent k pw) (C.sent k A) a :=
    ⟨hfits _, hfits _, fun _ _ _ => ⟨hfits _, hfits _⟩, fun _ _ _ _ => hfits _⟩
  have hanswer := Ctx.authRequestHandler_natCast hreq hauth (s := Γ.registeredServer C uid pw Bio L s) rfl (by
    intro person hperson
    rw [hPID, hfind] at hperson
    cases hperson
    exact ⟨⟨_, rfl, hfits _⟩, ⟨_, rfl, hfits _⟩⟩)
  rw [Ctx.processRequest_auth rfl, hanswer]
  have hpersonA : (Γ.personOf C uid pw Bio L).A = Nat.toDigits 10 (C.mask A) := rfl
  have hpersonAuth : (Γ.personOf C uid pw Bio L).Auth =
    Nat.toDigits 10 (Γ.verifier C pw (Γ.pseudonym uid L Bio)) := rfl
  simp only [Ctx.authAnswer, Ctx.authOutcome, hPID, hfind, hA, hpw, hpersonA, hpersonAuth, if_true]

/-- Round 3: the key is confirmed. -/
theorem Ctx.Honest.confirm {s : Server} (h : Γ.Honest C people uid pw Bio L) {k : Nat}
    (hrecover : ∀ v < C.N, C.recover (C.sent k v) = v) {a QID : Nat} (hQIDlt : QID < C.N)
    (hA : s.A = some (Γ.parameter uid pw Bio L : Int)) (ha : s.a = some (a : Int)) (hQID : s.QID = some (QID : Int))
    (b drawn : Nat) :
    let A := Γ.parameter uid pw Bio L
    Γ.processRequest C (sharedKeyGenResponse (C.mask A ^^^ b : Nat) (C.mask (a + b) : Nat) (C.sent k QID : Nat)
        (Γ.sm3Nat [C.mask A ^^^ b, C.mask (a + b), C.sent k QID] : Nat)) drawn s =
      .ok (Γ.finish C (C.sent k QID) A a b, s) := by
  intro A
  have hfits := Ctx.fits_of_noLimit h.noLimit
  have hconfirms : Γ.Confirms C s (C.mask A ^^^ b) (C.mask (a + b)) (C.sent k QID)
      (Γ.sm3Nat [C.mask A ^^^ b, C.mask (a + b), C.sent k QID]) A a := by
    refine ⟨hA, ha, ?_, hfits _, rfl, ?_, hfits _, hfits _⟩
    · rw [hrecover _ hQIDlt, hQID]
    · rw [Mask.natXor_cancel_left]
      exact C.nonceTest_sum a b
  have hfields : (sharedKeyGenResponse (C.mask A ^^^ b : Nat) (C.mask (a + b) : Nat) (C.sent k QID : Nat)
      (Γ.sm3Nat [C.mask A ^^^ b, C.mask (a + b), C.sent k QID] : Nat)).ConfirmFields (C.mask A ^^^ b) (C.mask (a + b))
      (C.sent k QID) (Γ.sm3Nat [C.mask A ^^^ b, C.mask (a + b), C.sent k QID]) := ⟨rfl, rfl, rfl, rfl⟩
  have hanswer := Ctx.sharedKeyGenResponseHandler_natCast hfields hconfirms
  rw [Mask.natXor_cancel_left] at hanswer
  rw [Ctx.processRequest_confirm rfl, hanswer]

/-- The device after the login of an honest run. -/
def Ctx.loggedIn (Γ : Ctx) (C : Center) (k uid pw Bio L : Nat) (u : User) : User :=
  { u with reg := some (Γ.registrationOf C k uid pw Bio L), PID := some (Γ.pseudonym uid L Bio : Int),
           QID := some (C.sent k (Γ.pseudonym uid L Bio) : Int) }

/-- The device after it has drawn its nonce. -/
def Center.keyed (C : Center) (a b : Nat) (u : User) : User :=
  { u with tmpa1 := some (a : Int), b := some (b : Int), TA1 := some (C.mask a : Int), TB := some (C.mask b : Int) }

/-- The device answers its registration with the authentication request. -/
theorem Ctx.Honest.handleRegistered (h : Γ.Honest C people uid pw Bio L) (k b : Nat) (u : User) :
    Γ.handleResponse (Γ.registered C k uid pw Bio L) [((uid : Int), (pw : Int), (Bio : Int))] b u =
      .ok ⟨some (authRequest (C.sent k (Γ.pseudonym uid L Bio) : Nat) (C.sent k pw : Nat)
        (C.sent k (Γ.parameter uid pw Bio L) : Nat)), none, [(.selfAuth, true)], Γ.loggedIn C k uid pw Bio L u⟩ := by
  have hreg : (u.registerProc (Γ.registrationOf C k uid pw Bio L)).reg = some (Γ.registrationOf C k uid pw Bio L) := rfl
  have hpre := Ctx.authPre_natCast (Ctx.fits_of_noLimit h.noLimit) hreg
  simp only [Ctx.handleResponse, Ctx.registered, Ctx.login, hpre, and_self, if_true, ok_bind]
  rfl

/-- The device answers its admission with the key confirmation. -/
theorem Ctx.Honest.handleAdmission (h : Γ.Honest C people uid pw Bio L) (k a b : Nat) (u : User) :
    let A := Γ.parameter uid pw Bio L
    let QID := C.sent k (Γ.pseudonym uid L Bio)
    Γ.handleResponse (Γ.admission C QID A a) [] b (Γ.loggedIn C k uid pw Bio L u) =
      .ok ⟨some (sharedKeyGenResponse (C.mask A ^^^ b : Nat) (C.mask (a + b) : Nat) (C.sent k QID : Nat)
        (Γ.sm3Nat [C.mask A ^^^ b, C.mask (a + b), C.sent k QID] : Nat)), none, [(.tagHM2, true), (.pseudonym, true)],
        C.keyed a b (Γ.loggedIn C k uid pw Bio L u)⟩ := by
  intro A QID
  have hreg : (Γ.loggedIn C k uid pw Bio L u).reg = some (Γ.registrationOf C k uid pw Bio L) := rfl
  have hQID : (Γ.loggedIn C k uid pw Bio L u).QID = some (QID : Int) := rfl
  have hgen := Ctx.deviceSharedkeyGen_natCast (Ctx.fits_of_noLimit h.noLimit) hreg hQID a b
  simp only at hgen
  simp only [Ctx.handleResponse, Ctx.admission, if_true, Nat.reduceEqDiff, if_false, hgen, ok_bind, A]
  rfl

/-- The device derives the key from the last response. -/
theorem Ctx.Honest.handleFinish (h : Γ.Honest C people uid pw Bio L) (k a b : Nat) (QID2 : Nat) (u : User) :
    Γ.handleResponse (Γ.finish C QID2 (Γ.parameter uid pw Bio L) a b) [] 0 (C.keyed a b (Γ.loggedIn C k uid pw Bio L u)) =
      .ok ⟨none, some (Γ.sharedKey C (Γ.parameter uid pw Bio L) a b : Int), [(.tagHM5, true), (.nonce, true)],
        { C.keyed a b (Γ.loggedIn C k uid pw Bio L u) with a := some (a : Int) }⟩ := by
  have hreg : (C.keyed a b (Γ.loggedIn C k uid pw Bio L u)).reg = some (Γ.registrationOf C k uid pw Bio L) := rfl
  have hgen2 := Ctx.deviceSharedkeyGen2_natCast (a := a) (b := b) (Ctx.fits_of_noLimit h.noLimit) hreg rfl rfl rfl rfl
    (QID2 ^^^ C.mask (Γ.parameter uid pw Bio L))
  have hrequest : ¬"SharedKey_Gen_Finish" = "SharedKey_Gen_request" := by decide
  simp only [Ctx.handleResponse, Ctx.finish, if_neg hrequest, and_self, if_true, hgen2, ok_bind]
  rfl

/-- The whole run: what is sent, what is checked, and the key. -/
theorem Ctx.Honest.run {server : Server} (h : Γ.Honest C server.people uid pw Bio L) (a b : Nat) (user : User) :
    ∃ (k : Nat) (out : Outcome), modInverse C.e C.n = some (k : Int) ∧
      Γ.sendRequest C (honestRounds uid pw Bio L a b) (registerRequest uid pw Bio) server user = .ok out ∧
      out.transcript = Γ.honestTranscript C k uid pw Bio L a b ∧ out.verdicts = honestVerdicts ∧
      out.KS = some (Γ.sharedKey C (Γ.parameter uid pw Bio L) a b : Int) := by
  obtain ⟨k, hk, hrecover⟩ := h.index
  have hauth := h.authenticate hrecover a
  have hconfirm := h.confirm hrecover (C.sent_lt k (Γ.pseudonym uid L Bio)) (s :=
      { Γ.registeredServer C uid pw Bio L server with
        A := some (Γ.parameter uid pw Bio L : Int), a := some (a : Int),
        QID := some (C.sent k (Γ.pseudonym uid L Bio) : Int) }) rfl (a := a) rfl rfl b 0
  simp only at hauth hconfirm
  have hround3 := h.handleFinish k a b (C.sent k (C.sent k (Γ.pseudonym uid L Bio))) user
  have hrun : Γ.sendRequest C (honestRounds uid pw Bio L a b) (registerRequest uid pw Bio) server user =
      .ok ⟨Γ.honestTranscript C k uid pw Bio L a b, honestVerdicts,
        some (Γ.sharedKey C (Γ.parameter uid pw Bio L) a b : Int),
        { Γ.registeredServer C uid pw Bio L server with
          A := some (Γ.parameter uid pw Bio L : Int), a := some (a : Int),
          QID := some (C.sent k (Γ.pseudonym uid L Bio) : Int) },
        { C.keyed a b (Γ.loggedIn C k uid pw Bio L user) with a := some (a : Int) }⟩ := by
    simp only [honestRounds, Ctx.sendRequest, h.register hk, h.handleRegistered k, hauth, h.handleAdmission k, hconfirm,
      hround3, ok_bind]
    rfl
  exact ⟨k, _, hk, hrun, rfl, rfl, rfl⟩

end Run

end AuthVideo
