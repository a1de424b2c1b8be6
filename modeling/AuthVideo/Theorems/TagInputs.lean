import AuthVideo.Lemmas.Admission
import AuthVideo.Lemmas.Gmssl
import AuthVideo.Lemmas.Returns
import AuthVideo.Lemmas.Texts

/-!
# Theorem 49: what the integrity tags bind

A tag of the script is the hash of the number that the fields of a message make when they are written one after the other. Where a field
ends is not written, and leading zeros are lost. The boards hash the two fields of `HM2` and `HM5` as words of a fixed width.
-/

namespace AuthVideo

/-! ## The tags -/

/-- The tags of the messages. -/
inductive Tag where
  | HM1
  | HM2
  | HM3
  | HM5
  deriving DecidableEq, Repr

/-- The number of fields: `QID, QPW, QA`, then `QID1, N1`, then `N2, TC, QID2`, and `TC1, QID3`. -/
def Tag.arity : Tag → Nat
  | .HM1 => 3
  | .HM2 => 2
  | .HM3 => 3
  | .HM5 => 2

/-- The script computes a tag of these fields: the centre checks `HM1` of a request that it accepts, and the other three are made for
a message that is sent. -/
inductive Ctx.Computes (Λ : Ctx) : Tag → List (Option Int) → Int → Prop where
  | HM1 {C QID QPW QA HM1 s s' A1 Q} (h : Λ.userAuth C QID QPW QA HM1 s = .ok (.accepted A1 Q, s')) :
      Computes Λ .HM1 [QID, QPW, QA] HM1
  | HM2 {C QID A a s s' QID1 N1 HM2} (h : Λ.sharedKeyGen C QID A a s = .ok ((QID1, N1, HM2), s')) :
      Computes Λ .HM2 [some QID1, some N1] HM2
  | HM3 {QID1 N1 HM2 b u u' N2 TC QID2 HM3 verdicts}
      (h : Λ.deviceSharedkeyGen QID1 N1 HM2 b u = .ok ((N2, TC, QID2, HM3), verdicts, u')) :
      Computes Λ .HM3 [some N2, some TC, some QID2] HM3
  | HM5 {C N2 TC QID2 HM3 s TC1 KS QID3 HM5} (h : Λ.sharedKeyGen2 C N2 TC QID2 HM3 s = .ok (some (TC1, KS, QID3, HM5))) :
      Computes Λ .HM5 [some TC1, some QID3] HM5

/-- Each of them is the hash of its fields. -/
theorem Ctx.Computes.sm3Cat {Λ : Ctx} {t : Tag} {vs : List (Option Int)} {z : Int} (h : Λ.Computes t vs z) :
    vs.length = t.arity ∧ Λ.sm3Cat vs = .ok z := by
  cases h with
  | HM1 h =>
    obtain ⟨HM11, hHM11, h⟩ := bind_eq_ok.mp h
    split at h
    · rename_i htag
      exact ⟨rfl, htag ▸ hHM11⟩
    · cases h
  | HM2 h =>
    obtain ⟨tag, htag, h⟩ := bind_eq_ok.mp h
    cases h
    exact ⟨rfl, htag⟩
  | HM3 h =>
    unfold Ctx.deviceSharedkeyGen at h
    simp only [bind_eq_ok] at h
    obtain ⟨tag, -, reg, -, TTG, -, QID, -, TC, -, TA1, -, TB, -, QID2, -, HM3, hHM3, h⟩ := h
    cases h
    exact ⟨rfl, hHM3⟩
  | HM5 h =>
    obtain ⟨A, a, n2, tc, qid2, hpass, rfl, rfl⟩ := Ctx.sharedKeyGen2_eq_some h
    exact ⟨rfl, hpass.reply⟩

/-! ## Messages -/

/-- The fields of a message, naturals below a bound. -/
structure TagFields (t : Tag) (N : Nat) where
  numbers : List Nat
  length_numbers : numbers.length = t.arity
  lt_numbers : ∀ n ∈ numbers, n < N

/-- Messages with the same fields are the same. -/
theorem TagFields.ext_numbers {t : Tag} {N : Nat} {m m' : TagFields t N} (h : m.numbers = m'.numbers) : m = m' := by
  obtain ⟨_, _, _⟩ := m
  obtain ⟨_, _, _⟩ := m'
  cases h
  rfl

/-- A message has a field. -/
theorem TagFields.ne_nil {t : Tag} {N : Nat} (m : TagFields t N) : m.numbers ≠ [] := by
  intro h
  have hlen := m.length_numbers
  rw [h] at hlen
  cases t <;> exact absurd hlen (by decide)

/-- The hash inputs bind the messages: two with one input are one. -/
def Ctx.InputsBind (Λ : Ctx) (t : Tag) (N : Nat) : Prop :=
  ∀ (m m' : TagFields t N) (z : Int), Λ.cat (fields m.numbers) = .ok z → Λ.cat (fields m'.numbers) = .ok z → m = m'

/-- The tags bind the messages: two with one tag are one. -/
def Ctx.TagsBind (Λ : Ctx) (t : Tag) (N : Nat) : Prop :=
  ∀ (m m' : TagFields t N) (z : Int), Λ.sm3Cat (fields m.numbers) = .ok z → Λ.sm3Cat (fields m'.numbers) = .ok z → m = m'

/-- Messages whose fields are single digits are read back from the number. -/
theorem TagFields.concat_inj {t : Tag} {N : Nat} (hN : N ≤ 10) {m m' : TagFields t N}
    (h : Decimal.concat m.numbers = Decimal.concat m'.numbers) : m = m' :=
  TagFields.ext_numbers (Decimal.concat_digits_inj (m.length_numbers.trans m'.length_numbers.symm)
    (fun n hn => Nat.lt_of_lt_of_le (m.lt_numbers n hn) hN) (fun n hn => Nat.lt_of_lt_of_le (m'.lt_numbers n hn) hN) h)

/-- Fields with a number of two digits behind a zero that is lost. -/
def Tag.shifted : Tag → List Nat
  | .HM1 | .HM3 => [0, 0, 10]
  | .HM2 | .HM5 => [0, 10]

/-- Fields of single digits that make the same number. -/
def Tag.unshifted : Tag → List Nat
  | .HM1 | .HM3 => [0, 1, 0]
  | .HM2 | .HM5 => [1, 0]

/-- From a field of two digits on there are two messages that make the same number. -/
theorem TagFields.exists_collision {N : Nat} (hN : 10 < N) (t : Tag) :
    ∃ m m' : TagFields t N, m.numbers = t.shifted ∧ m'.numbers = t.unshifted := by
  have hle : ∀ n, n ∈ t.shifted ∨ n ∈ t.unshifted → n ≤ 10 := by
    intro n hn
    cases t <;> simp only [Tag.shifted, Tag.unshifted, List.mem_cons, List.not_mem_nil, or_false] at hn <;> omega
  exact ⟨⟨t.shifted, by cases t <;> rfl, fun n hn => Nat.lt_of_le_of_lt (hle n (.inl hn)) hN⟩,
    ⟨t.unshifted, by cases t <;> rfl, fun n hn => Nat.lt_of_le_of_lt (hle n (.inr hn)) hN⟩, rfl, rfl⟩

theorem Tag.shifted_ne (t : Tag) : t.shifted ≠ t.unshifted := by
  cases t <;> decide

theorem Tag.concat_shifted (t : Tag) : Decimal.concat t.shifted = Decimal.concat t.unshifted := by
  cases t <;> decide

/-- Their conversions are within every limit that the interpreter takes. -/
theorem Tag.fits_shifted {Λ : Ctx} (hlimit : Λ.Allows 640) (t : Tag) : Λ.Fits t.shifted ∧ Λ.Fits t.unshifted := by
  have hlen : (Decimal.joined t.shifted).length ≤ 640 ∧ (Decimal.joined t.unshifted).length ≤ 640 := by
    cases t <;> decide
  exact ⟨hlimit.mono hlen.1, hlimit.mono hlen.2⟩

/-- Two odd primes make a modulus of two digits. -/
theorem Center.Proper.ten_lt {C : Center} (h : C.Proper) : 10 < C.N := by
  have hp : 3 ≤ C.p := Nat.lt_of_le_of_ne h.p_prime.two_le h.p_odd.symm
  have hq : 3 ≤ C.q := Nat.lt_of_le_of_ne h.q_prime.two_le h.q_odd.symm
  rcases Nat.lt_or_gt_of_ne h.distinct with hlt | hgt
  · have hmul : 3 * 4 ≤ C.p * C.q := Nat.mul_le_mul hp (by omega)
    exact Nat.lt_of_lt_of_le (by decide) hmul
  · have hmul : 4 * 3 ≤ C.p * C.q := Nat.mul_le_mul (by omega) hq
    exact Nat.lt_of_lt_of_le (by decide) hmul

/-! ## When they bind -/

section Bind

variable {Λ : Ctx}

/-- The hash inputs bind the messages exactly when every field is a single digit. -/
theorem Ctx.inputsBind_iff (hlimit : Λ.Allows 640) (t : Tag) (N : Nat) : Λ.InputsBind t N ↔ N ≤ 10 := by
  constructor
  · intro hbind
    by_contra hN
    obtain ⟨m, m', hm, hm'⟩ := TagFields.exists_collision (Nat.lt_of_not_le hN) t
    obtain ⟨hfits, hfits'⟩ := Tag.fits_shifted hlimit t
    have hcat : Λ.cat (fields m.numbers) = .ok (Decimal.concat t.shifted : Nat) := by
      rw [Ctx.cat_fields Λ _ m.ne_nil, hm, if_pos hfits]
    have hcat' : Λ.cat (fields m'.numbers) = .ok (Decimal.concat t.shifted : Nat) := by
      rw [Ctx.cat_fields Λ _ m'.ne_nil, hm', if_pos hfits', Tag.concat_shifted]
    exact t.shifted_ne (hm.symm.trans ((congrArg TagFields.numbers (hbind m m' _ hcat hcat')).trans hm'))
  · intro hN m m' z h h'
    have hz := (Ctx.fits_of_cat m.numbers m.ne_nil h).2
    have hz' := (Ctx.fits_of_cat m'.numbers m'.ne_nil h').2
    exact TagFields.concat_inj hN (by exact_mod_cast hz.symm.trans hz')

/-- So do the tags, where the hash has no collision on the texts of the messages. -/
theorem Ctx.tagsBind_iff (hlimit : Λ.Allows 640) (t : Tag) (N : Nat)
    (hfree : Set.InjOn Λ.sm3 (Set.range fun m : TagFields t N => text m.numbers)) : Λ.TagsBind t N ↔ N ≤ 10 := by
  constructor
  · intro hbind
    rw [← Ctx.inputsBind_iff hlimit t N]
    intro m m' z h h'
    obtain ⟨hfits, hz⟩ := Ctx.fits_of_cat m.numbers m.ne_nil h
    obtain ⟨hfits', hz'⟩ := Ctx.fits_of_cat m'.numbers m'.ne_nil h'
    have hconcat : Decimal.concat m.numbers = Decimal.concat m'.numbers := by exact_mod_cast hz.symm.trans hz'
    refine hbind m m' (Λ.sm3Nat m.numbers : Nat) ?_ ?_
    · rw [Ctx.sm3Cat_fields Λ _ m.ne_nil, if_pos hfits]
    · rw [Ctx.sm3Cat_fields Λ _ m'.ne_nil, if_pos hfits', Ctx.sm3Nat, Ctx.sm3Nat, hconcat]
  · intro hN m m' z h h'
    have hz := (Ctx.fits_of_sm3Cat m.numbers m.ne_nil h).2
    have hz' := (Ctx.fits_of_sm3Cat m'.numbers m'.ne_nil h').2
    have hhash : Λ.sm3Nat m.numbers = Λ.sm3Nat m'.numbers := by exact_mod_cast hz.symm.trans hz'
    exact TagFields.concat_inj hN (toDigits_inj.mp (hfree ⟨m, rfl⟩ ⟨m', rfl⟩ hhash))

/-- Theorem 49 (integrity tags). Every tag that the script computes is the hash of its fields. For each of the four and every bound,
different messages with fields below the bound have different hash inputs exactly when the bound is at most 10. Where the hash has no
collision on the texts of these messages, the tags bind them under the same condition. The modulus of a proper centre never meets
it. -/
theorem tags_bind_iff (hlimit : Λ.Allows 640) (t : Tag) (N : Nat) :
    (∀ (vs : List (Option Int)) (z : Int), Λ.Computes t vs z → vs.length = t.arity ∧ Λ.sm3Cat vs = .ok z) ∧
      (Λ.InputsBind t N ↔ N ≤ 10) ∧
      (Set.InjOn Λ.sm3 (Set.range fun m : TagFields t N => text m.numbers) → (Λ.TagsBind t N ↔ N ≤ 10)) ∧
      ∀ C : Center, C.Proper → ¬Λ.InputsBind t C.N := by
  refine ⟨fun vs z h => h.sm3Cat, Ctx.inputsBind_iff hlimit t N, Ctx.tagsBind_iff hlimit t N, ?_⟩
  intro C hC hbind
  exact Nat.not_le_of_lt hC.ten_lt ((Ctx.inputsBind_iff hlimit t C.N).mp hbind)

end Bind

/-- `HM2` with numbers below 24. -/
theorem tags_bind_iff_gm :
    (∀ (vs : List (Option Int)) (z : Int), gmCtx.Computes .HM2 vs z → vs.length = Tag.HM2.arity ∧ gmCtx.sm3Cat vs = .ok z) ∧
      (gmCtx.InputsBind .HM2 24 ↔ 24 ≤ 10) ∧
      (Set.InjOn gmCtx.sm3 (Set.range fun m : TagFields .HM2 24 => text m.numbers) → (gmCtx.TagsBind .HM2 24 ↔ 24 ≤ 10)) ∧
      ∀ C : Center, C.Proper → ¬gmCtx.InputsBind .HM2 C.N :=
  tags_bind_iff (Or.inl rfl) .HM2 24

/-- The messages of `QID1 = 12`, `N1 = 3` and of `QID1 = 1`, `N1 = 23` have the same hash input. -/
theorem tags_move_digits :
    gmCtx.cat [some 12, some 3] = .ok 123 ∧ gmCtx.cat [some 1, some 23] = .ok 123 ∧ ¬gmCtx.InputsBind .HM2 24 := by
  have hcat : gmCtx.cat [some 12, some 3] = .ok 123 := by decide +kernel
  have hcat' : gmCtx.cat [some 1, some 23] = .ok 123 := by decide +kernel
  refine ⟨hcat, hcat', ?_⟩
  intro hbind
  have hsame := hbind ⟨[12, 3], rfl, by decide⟩ ⟨[1, 23], rfl, by decide⟩ 123 hcat hcat'
  exact absurd (congrArg TagFields.numbers hsame) (by decide)

end AuthVideo
