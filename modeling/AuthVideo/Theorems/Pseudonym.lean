import AuthVideo.Board.Protocol
import AuthVideo.Lemmas.Gmssl
import AuthVideo.Lemmas.Sm3Agree
import AuthVideo.Lemmas.Texts
import AuthVideo.Theorems.Board

/-!
# Theorem 31: the pseudonym and the parameter on the board and in the script

`auth_pre` of `protocol.c` and `auth_pre` of `User_simple.py` start with the same two hashes. The board prints `L` with its words the
other way round, hashes the bytes of the joined number where the script hashes its numeral, keeps zeros in front of the text that
it makes `A` from, and stores the words of a digest with the first one lowest. The two sides agree exactly when SM3 makes up for
all of this.
-/

namespace AuthVideo

/-! ## The script -/

/-- `PID1` and `A1`. -/
def Ctx.authPreHashes (Λ : Ctx) (id pw Bio L : Int) : Except PyError (Int × Int) := do
  let PID1 ← Λ.sm3Cat [some id, some L, some Bio]
  let h ← Λ.sm3Cat [some id, some pw, some Bio]
  return (PID1, Int.xor h L)

/-- `auth_pre` starts with these. -/
theorem Ctx.authPre_eq (Λ : Ctx) (id pw Bio : Int) (u : User) :
    Λ.authPre id pw Bio u = (do
      let reg ← attr u.reg
      let (PID1, A1) ← Λ.authPreHashes id pw Bio reg.L
      if A1 = reg.A then
        let QID ← reg.chebyshev reg.d PID1
        let QPW ← reg.chebyshev reg.d pw
        let QA ← reg.chebyshev reg.d A1
        return (some (QID, QPW, QA), { u with PID := some PID1, QID := some QID })
      else return (none, u)) := by
  unfold Ctx.authPre Ctx.authPreHashes
  cases attr u.reg with
  | error e => rfl
  | ok reg =>
    rw [ok_bind, ok_bind, bind_assoc]
    refine congrArg _ (funext fun PID1 => ?_)
    rw [bind_assoc]
    rfl

/-! ## What is the same on both sides -/

/-- The two sides are given the same numbers and the same hash. The text of `L` is what `hex_to_uint256` reads. -/
structure SameInputs (Γ : Chip) (Λ : Ctx) (client : Client) (id pw Bio : Nat) (hexL : Bytes) : Prop where
  sm3 : ∀ t : Text, t.length * 8 < 2 ^ 64 → Λ.sm3 t = BigEndian.decode (CSm3.gmSm3 Γ.shr32 Γ.stack (ascii t))
  limit : Λ.Allows 640
  fuel : 128 ≤ Γ.fuel
  userid : client.userid.toInt = id
  password : client.password.toInt = pw
  bio : client.bio.toInt = Bio
  L : hexToUint256 hexL = some client.L

/-- The board and the script compute the same numbers. -/
def Agree (Γ : Chip) (Λ : Ctx) (client : Client) (id pw Bio L : Nat) : Prop :=
  ∃ PID PID1 A1, Γ.pseudonym client = some PID ∧ Λ.authPreHashes id pw Bio L = .ok (PID1, A1) ∧
    (PID.value : Int) = PID1 ∧ ((Γ.parameterA client).value : Int) = A1

/-! ## Digests -/

theorem putUint32Be_toUInt64 (w : UInt32) : CSm3.putUint32Be w.toUInt64 = limbBytes w := by
  have hbyte : ∀ (n : UInt64) (m : UInt32) (k : Nat), n.toNat = k → m.toNat = k → k < 32 →
      (w.toUInt64 >>> n).toUInt8 = (w >>> m).toUInt8 := by
    intro n m k hn hm hk
    rw [← UInt8.toNat_inj, UInt64.toNat_toUInt8, UInt32.toNat_toUInt8, UInt64.toNat_shiftRight, UInt32.toNat_shiftRight,
      UInt32.toNat_toUInt64, hn, hm, Nat.mod_eq_of_lt hk, Nat.mod_eq_of_lt (by omega : k < 64)]
  unfold CSm3.putUint32Be limbBytes
  rw [hbyte 24 24 24 rfl rfl (by decide), hbyte 16 16 16 rfl rfl (by decide), hbyte 8 8 8 rfl rfl (by decide)]
  rfl

/-- A digest is the bytes of eight words. -/
theorem gmSm3_words (M : Shr32) (ctx : CSm3.Context) (input : Bytes) : ∃ a : Uint256, CSm3.gmSm3 M ctx input = uint256Bytes a := by
  obtain ⟨v, hv⟩ : ∃ v : Words8 UInt32, CSm3.gmSm3 M ctx input = (v.toList.map fun w => CSm3.putUint32Be w.toUInt64).flatten :=
    ⟨_, rfl⟩
  refine ⟨⟨v.toList, rfl⟩, ?_⟩
  rw [hv, uint256Bytes]
  exact congrArg List.flatten (List.map_congr_left fun w _ => putUint32Be_toUInt64 w)

/-- The number in a digest is what `sm3_to_uint256` makes of it, with the words the other way round. -/
theorem Chip.decode_digest (Γ : Chip) (input : Bytes) :
    BigEndian.decode (CSm3.gmSm3 Γ.shr32 Γ.stack input) = (Γ.sm3 input).reversed.value := by
  obtain ⟨a, ha⟩ := gmSm3_words Γ.shr32 Γ.stack input
  rw [Chip.sm3, ha, sm3ToUint256_bytes, decode_uint256Bytes]

/-! ## The two hashes -/

section Hashes

variable {Γ : Chip} {Λ : Ctx} {client : Client} {id pw Bio : Nat} {hexL : Bytes}

/-- The text of a number in a variable of the console. -/
theorem percentD_natCast {n : Int32} {k : Nat} (h : n.toInt = k) : percentD n = ascii (Nat.toDigits 10 k) := by
  have hneg : ¬n < 0 := by
    rw [Int32.lt_iff_toInt_lt, h]
    exact Int.not_lt.mpr (Int.natCast_nonneg k)
  rw [percentD, if_neg hneg, h, Int.natAbs_natCast, List.nil_append, ascii]

/-- Such a number has at most ten digits. -/
theorem lt_of_toInt {n : Int32} {k : Nat} (h : n.toInt = k) : k < 10 ^ 10 := by
  have hlt := n.toInt_lt
  rw [h] at hlt
  omega

/-- Three numerals in a row: at most 98 digits with one number of 256 bits in the middle. -/
theorem length_joined_le {a b c : Nat} (ha : a < 10 ^ 10) (hb : b < 2 ^ 256) (hc : c < 10 ^ 10) :
    (Decimal.joined [a, b, c]).length ≤ 98 := by
  have hlen : ∀ {n k : Nat}, 0 < k → n < 10 ^ k → (Nat.toDigits 10 n).length ≤ k := fun hk h =>
    (Nat.length_toDigits_le_iff (by decide) hk).mpr h
  have h1 := hlen (by decide) ha
  have h2 := hlen (k := 78) (by decide) (Nat.lt_trans hb (by decide))
  have h3 := hlen (by decide) hc
  simp only [Decimal.joined, List.flatMap_cons, List.flatMap_nil, List.length_append, List.length_nil]
  omega

/-- Texts one after the other. -/
theorem ascii_joined (a b c : Nat) :
    ascii (Nat.toDigits 10 a) ++ ascii (Nat.toDigits 10 b) ++ ascii (Nat.toDigits 10 c) = ascii (Decimal.joined [a, b, c]) := by
  simp [ascii, Decimal.joined]

/-- The pseudonym of the board: the digest of the bytes of the joined number, with the words of `L` the other way round. -/
theorem SameInputs.pseudonym_eq (h : SameInputs Γ Λ client id pw Bio hexL) :
    Γ.pseudonym client = some (Γ.sm3 (shortest (Decimal.concat [id, client.L.reversed.value, Bio]))) := by
  have hjoined := length_joined_le (lt_of_toInt h.userid) client.L.reversed.value_lt (lt_of_toInt h.bio)
  have hdigit : ∀ c ∈ Decimal.joined [id, client.L.reversed.value, Bio], c.isDigit := fun c hc => Decimal.isDigit_of_mem_joined hc
  obtain ⟨hnumeral, hnumber⟩ := numberOf_ascii hdigit
  have hne : ascii (Decimal.joined [id, client.L.reversed.value, Bio]) ≠ [] :=
    List.map_eq_nil_iff.not.mpr (Decimal.joined_ne_nil (List.cons_ne_nil _ _))
  have hsize : Nat.ofDigitChars 10 (Decimal.joined [id, client.L.reversed.value, Bio]) 0 < 256 ^ 41 := by
    refine Nat.lt_of_lt_of_le (Decimal.ofDigitChars_lt hdigit) (Nat.le_trans (Nat.pow_le_pow_right (by decide) hjoined) ?_)
    decide
  have hlen := Radix.length_digits_le (by decide : 1 < 256) (by decide) hsize
  rw [← hnumber] at hlen
  have hfuel := h.fuel
  have hbytes : bigIntBytes Γ.fuel (ascii (Decimal.joined [id, client.L.reversed.value, Bio])) = some (shortest _) :=
    bigIntBytes_eq hne hnumeral (by omega) (by omega)
  simp only [Chip.pseudonym, uint256ToDecstr_eq, percentD_natCast h.userid, percentD_natCast h.bio, ascii_joined, hbytes, hnumber,
    Option.bind_eq_bind, Option.bind_some, Option.pure_def]
  rfl

/-- The two numbers of the script. -/
theorem SameInputs.authPreHashes_eq (h : SameInputs Γ Λ client id pw Bio hexL) :
    Λ.authPreHashes id pw Bio (hexNumber hexL : Nat) =
      .ok ((Λ.sm3Nat [id, client.L.value, Bio] : Nat), (Λ.sm3Nat [id, pw, Bio] ^^^ client.L.value : Nat)) := by
  have hid := lt_of_toInt h.userid
  have hBio := lt_of_toInt h.bio
  have hpw := Nat.lt_trans (lt_of_toInt h.password) (by decide : 10 ^ 10 < 2 ^ 256)
  have hfits : ∀ {b : Nat}, b < 2 ^ 256 → Λ.Fits [id, b, Bio] := fun hb =>
    h.limit.mono (Nat.le_trans (length_joined_le hid hb hBio) (by decide))
  rw [← hexToUint256_value h.L, Ctx.authPreHashes, Ctx.sm3Cat_three, if_pos (hfits client.L.value_lt), ok_bind, Ctx.sm3Cat_three,
    if_pos (hfits hpw), ok_bind, Mask.xor_natCast]
  rfl

/-- A hash of the script is a digest of the board with the words the other way round. -/
theorem SameInputs.sm3Nat_eq (h : SameInputs Γ Λ client id pw Bio hexL) {b : Nat} (hb : b < 2 ^ 256) :
    Λ.sm3Nat [id, b, Bio] = (Γ.sm3 (ascii (Nat.toDigits 10 (Decimal.concat [id, b, Bio])))).reversed.value := by
  have hjoined := length_joined_le (lt_of_toInt h.userid) hb (lt_of_toInt h.bio)
  have hlen := Decimal.length_toDigits_concat (List.cons_ne_nil id [b, Bio])
  rw [Ctx.sm3Nat, h.sm3 _ (by omega), Chip.decode_digest]

/-- The pseudonyms agree exactly when the digest of the board's bytes is that of the script's text with the words the other way
round. -/
theorem SameInputs.pseudonym_agrees_iff (h : SameInputs Γ Λ client id pw Bio hexL) :
    (Γ.sm3 (shortest (Decimal.concat [id, client.L.reversed.value, Bio]))).value = Λ.sm3Nat [id, client.L.value, Bio] ↔
      Γ.sm3 (shortest (Decimal.concat [id, client.L.reversed.value, Bio])) =
        (Γ.sm3 (ascii (Nat.toDigits 10 (Decimal.concat [id, client.L.value, Bio])))).reversed := by
  rw [h.sm3Nat_eq client.L.value_lt]
  constructor
  · exact Limbs.value_inj
  · intro heq
    rw [heq]

/-- The parameters agree exactly when the digest of the board's text is that of the script's with the words the other way round. -/
theorem SameInputs.parameterA_agrees_iff (h : SameInputs Γ Λ client id pw Bio hexL) :
    (Γ.parameterA client).value = Λ.sm3Nat [id, pw, Bio] ^^^ client.L.value ↔
      Γ.sm3 (ascii (Decimal.joined [id, pw, Bio])) = (Γ.sm3 (ascii (Nat.toDigits 10 (Decimal.concat [id, pw, Bio])))).reversed := by
  have hpw := Nat.lt_trans (lt_of_toInt h.password) (by decide : 10 ^ 10 < 2 ^ 256)
  have hvalue : (Γ.parameterA client).value = (Γ.sm3 (ascii (Decimal.joined [id, pw, Bio]))).value ^^^ client.L.value := by
    rw [Chip.parameterA, Limbs.value_xor, percentD_natCast h.userid, percentD_natCast h.password, percentD_natCast h.bio,
      ascii_joined]
  rw [hvalue, h.sm3Nat_eq hpw]
  constructor
  · intro heq
    have hcancel := congrArg (· ^^^ client.L.value) heq
    simp only [Mask.natXor_cancel_right] at hcancel
    exact Limbs.value_inj hcancel
  · intro heq
    rw [heq]

/-- For a positive user both sides hash one text, and agree on the parameter exactly when its digest reads the same backwards. -/
theorem SameInputs.parameterA_agrees_iff_of_pos (h : SameInputs Γ Λ client id pw Bio hexL) (hid : 0 < id) :
    (Γ.parameterA client).value = Λ.sm3Nat [id, pw, Bio] ^^^ client.L.value ↔
      Γ.sm3 (ascii (Decimal.joined [id, pw, Bio])) = (Γ.sm3 (ascii (Decimal.joined [id, pw, Bio]))).reversed := by
  rw [h.parameterA_agrees_iff, Decimal.toDigits_concat hid]

/-- Theorem 31 (one pseudonym). For all numbers that the board and the script are given alike, and the same SM3: both return, and
they agree on the pseudonym and on the parameter exactly when two equations between digests hold. On the left stands what the board
hashes: the bytes of the joined number with the words of `L` the other way round, and the joined text. On the right stands what the
script hashes: the numerals of the joined numbers. The words of a digest come the other way round on the board. -/
theorem pseudonyms_agree_iff (h : SameInputs Γ Λ client id pw Bio hexL) :
    Agree Γ Λ client id pw Bio (hexNumber hexL) ↔
      Γ.sm3 (shortest (Decimal.concat [id, client.L.reversed.value, Bio])) =
          (Γ.sm3 (ascii (Nat.toDigits 10 (Decimal.concat [id, client.L.value, Bio])))).reversed ∧
        Γ.sm3 (ascii (Decimal.joined [id, pw, Bio])) =
          (Γ.sm3 (ascii (Nat.toDigits 10 (Decimal.concat [id, pw, Bio])))).reversed := by
  rw [← h.pseudonym_agrees_iff, ← h.parameterA_agrees_iff]
  constructor
  · rintro ⟨PID, PID1, A1, hPID, hhashes, hvalue, hA⟩
    rw [h.pseudonym_eq] at hPID
    rw [h.authPreHashes_eq] at hhashes
    cases hPID
    cases hhashes
    exact ⟨Int.ofNat.inj hvalue, Int.ofNat.inj hA⟩
  · rintro ⟨hvalue, hA⟩
    exact ⟨_, _, _, h.pseudonym_eq, h.authPreHashes_eq, congrArg Nat.cast hvalue, congrArg Nat.cast hA⟩

end Hashes

/-! ## A registration -/

/-- A chip that is given time to end its loops. -/
def patientChip : Chip := { sampleChip with fuel := 128 }

/-- The client of a user 1 with password 2 and biometry 3, whose `L` is zero. -/
def sampleClient : Client :=
  ⟨1, 2, 3, .zero, .zero, .zero, .zero, .zero, .zero, .zero, .zero, .zero, .zero, .zero, .zero, .zero, .zero⟩

/-- Both hashes are SM3. -/
theorem gmCtx_sm3 (Γ : Chip) (t : Text) (hlen : t.length * 8 < 2 ^ 64) :
    gmCtx.sm3 t = BigEndian.decode (CSm3.gmSm3 Γ.shr32 Γ.stack (ascii t)) := by
  have hheld := update_holds Γ.shr32 (init_holds Γ.stack) (ascii t)
  rw [Nat.zero_add] at hheld
  have hdone := done_eq Γ.shr32 hheld (by rwa [ascii, List.length_map])
  obtain ⟨hash, hhash, hbytes⟩ := Option.map_eq_some_iff.mp hdone
  have hdigest : gmDigest t = BigEndian.encode 32 hash := by
    rw [gmDigest, ← ascii, hhash, Option.getD_some]
  simp only [gmCtx, CSm3.gmSm3, hdigest, hbytes]

theorem sampleInputs : SameInputs patientChip gmCtx sampleClient 1 2 3 (List.replicate 64 48) where
  sm3 := gmCtx_sm3 patientChip
  limit := Or.inl rfl
  fuel := Nat.le_refl 128
  userid := rfl
  password := rfl
  bio := rfl
  L := by decide +kernel

/-- The two equations for this registration. -/
theorem pseudonyms_agree_iff_sample :
    Agree patientChip gmCtx sampleClient 1 2 3 (hexNumber (List.replicate 64 48)) ↔
      patientChip.sm3 (shortest (Decimal.concat [1, sampleClient.L.reversed.value, 3])) =
          (patientChip.sm3 (ascii (Nat.toDigits 10 (Decimal.concat [1, sampleClient.L.value, 3])))).reversed ∧
        patientChip.sm3 (ascii (Decimal.joined [1, 2, 3])) =
          (patientChip.sm3 (ascii (Nat.toDigits 10 (Decimal.concat [1, 2, 3])))).reversed :=
  pseudonyms_agree_iff sampleInputs

/-- The board and the script do not agree on it. -/
theorem parameters_differ :
    ¬∀ (Γ : Chip) (Λ : Ctx) (client : Client) (id pw Bio : Nat) (hexL : Bytes), SameInputs Γ Λ client id pw Bio hexL →
      Agree Γ Λ client id pw Bio (hexNumber hexL) := by
  intro hall
  obtain ⟨PID, PID1, A1, -, hhashes, -, hA⟩ := hall _ _ _ _ _ _ _ sampleInputs
  rw [sampleInputs.authPreHashes_eq] at hhashes
  cases hhashes
  have hdigest := (sampleInputs.parameterA_agrees_iff_of_pos Nat.one_pos).mp (Int.ofNat.inj hA)
  have hdiffer : patientChip.sm3 (ascii (Decimal.joined [1, 2, 3])) ≠
      (patientChip.sm3 (ascii (Decimal.joined [1, 2, 3]))).reversed := by
    decide +kernel
  exact hdiffer hdigest

end AuthVideo
