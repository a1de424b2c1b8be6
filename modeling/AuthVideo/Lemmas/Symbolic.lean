import AuthVideo.Symbolic

/-!
# Normal forms of terms

The two equations, read from left to right, give every term a normal form, and two terms are equal when their normal forms are
the same. What the attacker can get to know is a set of normal forms that no derivation leaves.
-/

namespace AuthVideo

open Calculus

namespace Bitstring

/-! ## Normal forms -/

/-- An exclusive or of normal forms, in normal form. -/
def reduceXor : Bitstring → Bitstring → Bitstring
  | xor a b, c => if b = c then a else xor (xor a b) c
  | a, c => xor a c

/-- A decryption of normal forms, in normal form. -/
def reduceAdec : Bitstring → Bitstring → Bitstring
  | aenc m (pk sk), k => if sk = k then m else adec (aenc m (pk sk)) k
  | a, k => adec a k

/-- The normal form. -/
def norm : Bitstring → Bitstring
  | free k => free k
  | name n => name n
  | hash a => hash a.norm
  | xor a b => reduceXor a.norm b.norm
  | c2 a b => c2 a.norm b.norm
  | c3 a b c => c3 a.norm b.norm c.norm
  | c4 a b c d => c4 a.norm b.norm c.norm d.norm
  | T n x => T n.norm x.norm
  | plus a b => plus a.norm b.norm
  | pk a => pk a.norm
  | aenc m k => aenc m.norm k.norm
  | adec m k => reduceAdec m.norm k.norm
  | nil => nil
  | cons a b => cons a.norm b.norm

/-- No equation applies from left to right. -/
def Normal : Bitstring → Prop
  | free _ => True
  | name _ => True
  | hash a => a.Normal
  | xor a b => a.Normal ∧ b.Normal ∧ ∀ c, a ≠ xor c b
  | c2 a b => a.Normal ∧ b.Normal
  | c3 a b c => a.Normal ∧ b.Normal ∧ c.Normal
  | c4 a b c d => a.Normal ∧ b.Normal ∧ c.Normal ∧ d.Normal
  | T n x => n.Normal ∧ x.Normal
  | plus a b => a.Normal ∧ b.Normal
  | pk a => a.Normal
  | aenc m k => m.Normal ∧ k.Normal
  | adec m k => m.Normal ∧ k.Normal ∧ ∀ m', m ≠ aenc m' (pk k)
  | nil => True
  | cons a b => a.Normal ∧ b.Normal

/-- An exclusive or that cancels. -/
@[simp] theorem reduceXor_cancel (a b : Bitstring) : reduceXor (xor a b) b = a := if_pos rfl

/-- An exclusive or that does not cancel. -/
theorem reduceXor_of_ne {a b : Bitstring} (h : ∀ c, a ≠ xor c b) : reduceXor a b = xor a b := by
  cases a with
  | xor p q => exact if_neg fun heq => h p (by rw [heq])
  | _ => rfl

/-- An exclusive or cancels or does not. -/
theorem reduceXor_cases (a b : Bitstring) : (∃ c, a = xor c b ∧ reduceXor a b = c) ∨ reduceXor a b = xor a b := by
  by_cases h : ∃ c, a = xor c b
  · obtain ⟨c, rfl⟩ := h
    exact Or.inl ⟨c, rfl, reduceXor_cancel c b⟩
  · exact Or.inr (reduceXor_of_ne fun c hc => h ⟨c, hc⟩)

/-- A decryption that succeeds. -/
@[simp] theorem reduceAdec_cancel (m k : Bitstring) : reduceAdec (aenc m (pk k)) k = m := if_pos rfl

/-- A decryption that does not. -/
theorem reduceAdec_of_ne {a k : Bitstring} (h : ∀ m, a ≠ aenc m (pk k)) : reduceAdec a k = adec a k := by
  cases a with
  | aenc m l =>
    cases l with
    | pk sk => exact if_neg fun heq => h m (by rw [heq])
    | _ => rfl
  | _ => rfl

/-- A decryption succeeds or does not. -/
theorem reduceAdec_cases (a k : Bitstring) : (∃ m, a = aenc m (pk k) ∧ reduceAdec a k = m) ∨ reduceAdec a k = adec a k := by
  by_cases h : ∃ m, a = aenc m (pk k)
  · obtain ⟨m, rfl⟩ := h
    exact Or.inl ⟨m, rfl, reduceAdec_cancel m k⟩
  · exact Or.inr (reduceAdec_of_ne fun m hm => h ⟨m, hm⟩)

theorem Normal.reduceXor {a b : Bitstring} (ha : a.Normal) (hb : b.Normal) : (reduceXor a b).Normal := by
  by_cases h : ∃ c, a = xor c b
  · obtain ⟨c, rfl⟩ := h
    rw [reduceXor_cancel]
    exact ha.1
  · have hne : ∀ c, a ≠ xor c b := fun c hc => h ⟨c, hc⟩
    rw [reduceXor_of_ne hne]
    exact ⟨ha, hb, hne⟩

theorem Normal.reduceAdec {a k : Bitstring} (ha : a.Normal) (hk : k.Normal) : (reduceAdec a k).Normal := by
  by_cases h : ∃ m, a = aenc m (pk k)
  · obtain ⟨m, rfl⟩ := h
    rw [reduceAdec_cancel]
    exact ha.1
  · have hne : ∀ m, a ≠ aenc m (pk k) := fun m hm => h ⟨m, hm⟩
    rw [reduceAdec_of_ne hne]
    exact ⟨ha, hk, hne⟩

/-- The normal form is one. -/
theorem norm_normal (t : Bitstring) : t.norm.Normal := by
  induction t with
  | free k => trivial
  | name n => trivial
  | nil => trivial
  | hash a ih => exact ih
  | pk a ih => exact ih
  | xor a b iha ihb => exact iha.reduceXor ihb
  | adec a b iha ihb => exact iha.reduceAdec ihb
  | c2 a b iha ihb => exact ⟨iha, ihb⟩
  | c3 a b c iha ihb ihc => exact ⟨iha, ihb, ihc⟩
  | c4 a b c d iha ihb ihc ihd => exact ⟨iha, ihb, ihc, ihd⟩
  | T a b iha ihb => exact ⟨iha, ihb⟩
  | plus a b iha ihb => exact ⟨iha, ihb⟩
  | aenc a b iha ihb => exact ⟨iha, ihb⟩
  | cons a b iha ihb => exact ⟨iha, ihb⟩

/-- On a normal form, an exclusive or undoes itself. -/
theorem reduceXor_reduceXor {a : Bitstring} (ha : a.Normal) (b : Bitstring) : reduceXor (reduceXor a b) b = a := by
  rcases reduceXor_cases a b with ⟨c, rfl, hc⟩ | hxor
  · rw [hc]
    exact reduceXor_of_ne ha.2.2
  · rw [hxor, reduceXor_cancel]

end Bitstring

/-! ## Equality -/

theorem Eqv.reduceXor (a b : Bitstring) : Eqv (.xor a b) (Bitstring.reduceXor a b) := by
  rcases Bitstring.reduceXor_cases a b with ⟨c, rfl, hc⟩ | hxor
  · rw [hc]
    exact Eqv.xor_cancel c b
  · rw [hxor]
    exact Eqv.refl _

theorem Eqv.reduceAdec (a k : Bitstring) : Eqv (.adec a k) (Bitstring.reduceAdec a k) := by
  rcases Bitstring.reduceAdec_cases a k with ⟨m, rfl, hm⟩ | hadec
  · rw [hm]
    exact Eqv.adec_aenc m k
  · rw [hadec]
    exact Eqv.refl _

/-- A term is equal to its normal form. -/
theorem eqv_norm (t : Bitstring) : Eqv t t.norm := by
  induction t with
  | free k => exact Eqv.refl _
  | name n => exact Eqv.refl _
  | nil => exact Eqv.refl _
  | hash a ih => exact Eqv.hash ih
  | pk a ih => exact Eqv.pk ih
  | xor a b iha ihb => exact (Eqv.xor iha ihb).trans (Eqv.reduceXor _ _)
  | adec a b iha ihb => exact (Eqv.adec iha ihb).trans (Eqv.reduceAdec _ _)
  | c2 a b iha ihb => exact Eqv.c2 iha ihb
  | c3 a b c iha ihb ihc => exact Eqv.c3 iha ihb ihc
  | c4 a b c d iha ihb ihc ihd => exact Eqv.c4 iha ihb ihc ihd
  | T a b iha ihb => exact Eqv.T iha ihb
  | plus a b iha ihb => exact Eqv.plus iha ihb
  | aenc a b iha ihb => exact Eqv.aenc iha ihb
  | cons a b iha ihb => exact Eqv.cons iha ihb

/-- Two terms are equal when they have the same normal form. -/
theorem eqv_iff {a b : Bitstring} : Eqv a b ↔ a.norm = b.norm := by
  constructor
  · intro h
    induction h with
    | xor_cancel a b => exact Bitstring.reduceXor_reduceXor a.norm_normal b.norm
    | adec_aenc m sk => exact Bitstring.reduceAdec_cancel m.norm sk.norm
    | refl a => rfl
    | symm _ ih => exact ih.symm
    | trans _ _ ih ih' => exact ih.trans ih'
    | hash _ ih => exact congrArg Bitstring.hash ih
    | pk _ ih => exact congrArg Bitstring.pk ih
    | xor _ _ ih ih' => exact congrArg₂ Bitstring.reduceXor ih ih'
    | adec _ _ ih ih' => exact congrArg₂ Bitstring.reduceAdec ih ih'
    | c2 _ _ ih ih' => exact congrArg₂ Bitstring.c2 ih ih'
    | T _ _ ih ih' => exact congrArg₂ Bitstring.T ih ih'
    | plus _ _ ih ih' => exact congrArg₂ Bitstring.plus ih ih'
    | aenc _ _ ih ih' => exact congrArg₂ Bitstring.aenc ih ih'
    | cons _ _ ih ih' => exact congrArg₂ Bitstring.cons ih ih'
    | c3 _ _ _ ih ih' ih'' => rw [Bitstring.norm, ih, ih', ih'', Bitstring.norm]
    | c4 _ _ _ _ ih ih' ih'' ih''' => rw [Bitstring.norm, ih, ih', ih'', ih''', Bitstring.norm]
  · intro h
    exact (eqv_norm a).trans (h ▸ (eqv_norm b).symm)

instance (a b : Bitstring) : Decidable (Eqv a b) := decidable_of_iff (a.norm = b.norm) eqv_iff.symm

/-! ## What the attacker may know -/

section Safe

variable (origin : Nat → Option Fresh)

/-- A name that a device has drawn for its registration. -/
def DeviceName (l : Nat) : Prop := origin l = some .L0

/-- The mask of a device. -/
def Masking (t : Bitstring) : Prop := ∃ l, DeviceName origin l ∧ t = .T (registeredA (.name l)) (.free .PK)

/-- What a device encrypts for the centre. -/
def SealedFactor (t : Bitstring) : Prop :=
  t = .free .PW ∨ ∃ l, DeviceName origin l ∧ (t = registeredPID (.name l) ∨ t = registeredA (.name l))

/-- The normal forms that the attacker may know. The mask of a device occurs under an exclusive or only, and the factors of a
device under an encryption for the centre. -/
def Safe : Bitstring → Prop
  | .free k => k.Public
  | .name n => origin n ≠ some .L ∧ origin n ≠ some .L0
  | .hash a => Safe a
  | .xor a b => Safe a ∧ (Safe b ∨ Masking origin b)
  | .c2 a b => Safe a ∧ Safe b
  | .c3 a b c => Safe a ∧ Safe b ∧ Safe c
  | .c4 a b c d => Safe a ∧ Safe b ∧ Safe c ∧ Safe d
  | .T n x => Safe n ∧ Safe x
  | .plus a b => Safe a ∧ Safe b
  | .pk a => Safe a
  | .aenc m k => (Safe m ∧ Safe k) ∨ (SealedFactor origin m ∧ k = .pk (.free .AuthK))
  | .adec m k => Safe m ∧ Safe k
  | .nil => True
  | .cons a b => Safe a ∧ Safe b

variable {origin}

/-- The exclusive or of a known term with a known one, or with a mask. -/
theorem Safe.reduceXor {a b : Bitstring} (ha : Safe origin a) (hb : Safe origin b ∨ Masking origin b) :
    Safe origin (Bitstring.reduceXor a b) := by
  rcases Bitstring.reduceXor_cases a b with ⟨c, rfl, hc⟩ | hxor
  · rw [hc]
    exact ha.1
  · rw [hxor]
    exact ⟨ha, hb⟩

/-- The decryption of a known term with a known key. -/
theorem Safe.reduceAdec {a k : Bitstring} (ha : Safe origin a) (hk : Safe origin k) : Safe origin (Bitstring.reduceAdec a k) := by
  rcases Bitstring.reduceAdec_cases a k with ⟨m, rfl, hm⟩ | hadec
  · rw [hm]
    rcases ha with ⟨hsafe, -⟩ | ⟨-, hkey⟩
    · exact hsafe
    · cases hkey
      exact absurd hk id
  · rw [hadec]
    exact ⟨ha, hk⟩

/-- No derivation leaves the set. -/
theorem Safe.of_derives {K : List Bitstring} {t : Bitstring} (hK : ∀ k ∈ K, Safe origin k.norm) (h : Derives K t) :
    Safe origin t.norm := by
  induction h with
  | known hmem => exact hK _ hmem
  | free hpublic => exact hpublic
  | eqv _ heqv ih => exact eqv_iff.mp heqv ▸ ih
  | hash _ ih => exact ih
  | pk _ ih => exact ih
  | xor _ _ iha ihb => exact iha.reduceXor (Or.inl ihb)
  | adec _ _ iha ihb => exact iha.reduceAdec ihb
  | c2 _ _ iha ihb => exact ⟨iha, ihb⟩
  | c3 _ _ _ iha ihb ihc => exact ⟨iha, ihb, ihc⟩
  | c4 _ _ _ _ iha ihb ihc ihd => exact ⟨iha, ihb, ihc, ihd⟩
  | T _ _ iha ihb => exact ⟨iha, ihb⟩
  | plus _ _ iha ihb => exact ⟨iha, ihb⟩
  | aenc _ _ iha ihb => exact Or.inl ⟨iha, ihb⟩
  | nil => trivial
  | cons _ _ iha ihb => exact ⟨iha, ihb⟩
  | head _ ih => exact ih.1
  | tail _ ih => exact ih.2

/-- The set is closed. -/
theorem closed_safe (origin : Nat → Option Fresh) : Closed theory origin fun t => Safe origin t.norm where
  derives := Safe.of_derives
  names n hn := by
    change Safe origin (.name n)
    unfold Safe
    rw [hn]
    exact ⟨nofun, nofun⟩

end Safe

end AuthVideo
