import AuthVideo.Python

/-!
# Conversions and hashes of natural numbers

On naturals within the interpreter's limit `str`, `int` and the hash of a concatenation return, and what they return is the
numeral, the number and the hash of the joined numerals.
-/

namespace AuthVideo

/-! ## Sequencing -/

/-- A sequence returns when its first part returns and the rest does from there. -/
theorem bind_eq_ok {ε α β : Type} {x : Except ε α} {f : α → Except ε β} {b : β} :
    x >>= f = .ok b ↔ ∃ a, x = .ok a ∧ f a = .ok b := by
  cases x with
  | error e => exact ⟨nofun, nofun⟩
  | ok a => exact ⟨fun h => ⟨a, rfl, h⟩, fun ⟨_, ha, h⟩ => by cases ha; exact h⟩

/-- A part that returns hands its value to the rest. -/
@[simp] theorem ok_bind {ε α β : Type} (a : α) (f : α → Except ε β) : (Except.ok a >>= f) = f a := rfl

theorem pure_eq_ok {ε α : Type} (a : α) : (pure a : Except ε α) = .ok a := rfl

@[simp] theorem asInt_eq_ok {v : Option Int} {z : Int} : asInt v = .ok z ↔ v = some z := by
  cases v <;> simp [asInt]

@[simp] theorem attr_eq_ok {α : Type} {v : Option α} {a : α} : attr v = .ok a ↔ v = some a := by
  cases v <;> simp [attr]

/-! ## Numerals -/

/-- The joined numerals of some naturals are within the limit. -/
def Ctx.Fits (Γ : Ctx) (ns : List Nat) : Prop := Γ.Allows (Decimal.joined ns).length

instance (Γ : Ctx) (ns : List Nat) : Decidable (Γ.Fits ns) := inferInstanceAs (Decidable (Γ.Allows _))

/-- Without a limit every conversion is admitted. -/
theorem Ctx.fits_of_noLimit {Γ : Ctx} (h : Γ.maxStrDigits = 0) (ns : List Nat) : Γ.Fits ns := Or.inl h

/-- What is admitted stays admitted with fewer digits. -/
theorem Ctx.Allows.mono {Γ : Ctx} {m n : Nat} (h : Γ.Allows n) (hmn : m ≤ n) : Γ.Allows m :=
  h.imp_right fun hn => Nat.le_trans hmn hn

/-- Each part of what is admitted is admitted. -/
theorem Ctx.Fits.of_mem {Γ : Ctx} {ns : List Nat} {n : Nat} (h : Γ.Fits ns) (hn : n ∈ ns) : Γ.Fits [n] := by
  refine Ctx.Allows.mono h ?_
  simpa [Decimal.joined] using Decimal.length_toDigits_le_joined hn

/-- The numbers of a request, a hash or a record, as the values that Python handles. -/
def fields (ns : List Nat) : List (Option Int) := ns.map fun n : Nat => some (n : Int)

/-- The value that `sm3Cat` computes on naturals. -/
def Ctx.sm3Nat (Γ : Ctx) (ns : List Nat) : Nat := Γ.sm3 (Nat.toDigits 10 (Decimal.concat ns))

/-- The hash is below `2 ^ 256`. -/
theorem Ctx.sm3Nat_lt (Γ : Ctx) (ns : List Nat) : Γ.sm3Nat ns < 2 ^ 256 := Γ.sm3_lt _

/-- The text of a natural number is its numeral. -/
@[simp] theorem decimal_natCast (n : Nat) : decimal n = Nat.toDigits 10 n := by
  rw [decimal, if_neg (by omega), Int.natAbs_natCast]

/-- `str` on a natural. -/
theorem Ctx.str_natCast (Γ : Ctx) (n : Nat) :
    Γ.str (n : Int) = if Γ.Fits [n] then .ok (Nat.toDigits 10 n) else .error .valueError := by
  simp only [Ctx.str, Int.natAbs_natCast, decimal_natCast, Ctx.Fits, Decimal.joined, List.flatMap_cons, List.flatMap_nil,
    List.append_nil]

/-- A nonempty text of digits is read as a natural when it is within the limit. -/
theorem Ctx.int_of_isDigit {Γ : Ctx} {t : Text} (hne : t ≠ []) (hd : ∀ c ∈ t, c.isDigit) :
    Γ.int t = if Γ.Allows t.length then .ok (Nat.ofDigitChars 10 t 0 : Nat) else .error .valueError := by
  have hdigits : Γ.digits t = if Γ.Allows t.length then .ok (Nat.ofDigitChars 10 t 0) else .error .valueError := by
    simp only [Ctx.digits, hne, ne_eq, not_false_eq_true, List.all_eq_true.mpr hd, true_and]
  unfold Ctx.int
  split
  · exact absurd (hd '-' List.mem_cons_self) (by decide)
  · rw [hdigits]
    split <;> rfl

/-- A numeral within the limit is read back as its number. -/
theorem Ctx.int_toDigits {Γ : Ctx} {n : Nat} (h : Γ.Fits [n]) : Γ.int (Nat.toDigits 10 n) = .ok (n : Int) := by
  have hlen : Γ.Allows (Nat.toDigits 10 n).length := by simpa [Ctx.Fits, Decimal.joined] using h
  rw [Ctx.int_of_isDigit Nat.toDigits_ne_nil fun c hc => Nat.isDigit_of_mem_toDigits (by decide) (by decide) hc,
    if_pos hlen]
  simp

/-- The texts of naturals: a conversion raises as soon as one number is beyond the limit. -/
theorem Ctx.mapM_strField (Γ : Ctx) (ns : List Nat) :
    (fields ns).mapM Γ.strField =
      if ∀ n ∈ ns, Γ.Fits [n] then .ok (ns.map (Nat.toDigits 10)) else .error .valueError := by
  induction ns with
  | nil => rfl
  | cons n ns ih =>
    have hcons : fields (n :: ns) = some (n : Int) :: fields ns := rfl
    rw [hcons, List.mapM_cons, ih, Ctx.strField, Ctx.str_natCast]
    have hiff : (∀ m ∈ n :: ns, Γ.Fits [m]) ↔ Γ.Fits [n] ∧ ∀ m ∈ ns, Γ.Fits [m] := List.forall_mem_cons
    by_cases hn : Γ.Fits [n]
    · by_cases hns : ∀ m ∈ ns, Γ.Fits [m]
      · rw [if_pos hn, if_pos hns, if_pos (hiff.mpr ⟨hn, hns⟩)]
        rfl
      · rw [if_pos hn, if_neg hns, if_neg fun h => hns (hiff.mp h).2]
        rfl
    · rw [if_neg hn, if_neg fun h => hn (hiff.mp h).1]
      rfl

/-- The concatenation of naturals denotes the joined number, when the joined text is within the limit. -/
theorem Ctx.cat_fields (Γ : Ctx) (ns : List Nat) (hne : ns ≠ []) :
    Γ.cat (fields ns) = if Γ.Fits ns then .ok (Decimal.concat ns : Nat) else .error .valueError := by
  rw [Ctx.cat, Ctx.mapM_strField]
  by_cases hall : ∀ n ∈ ns, Γ.Fits [n]
  · rw [if_pos hall, ok_bind]
    change Γ.int (ns.map (Nat.toDigits 10)).flatten = _
    rw [← List.flatMap_def]
    exact Ctx.int_of_isDigit (Decimal.joined_ne_nil hne) fun c hc => Decimal.isDigit_of_mem_joined hc
  · have hns : ¬Γ.Fits ns := fun h => hall fun n hn => h.of_mem hn
    rw [if_neg hall, if_neg hns]
    rfl

/-- The hash of the number that joined naturals denote. -/
theorem Ctx.sm3Hash_concat {Γ : Ctx} (ns : List Nat) (hne : ns ≠ []) (h : Γ.Fits ns) :
    Γ.sm3Hash (Decimal.concat ns : Nat) = .ok (Γ.sm3Nat ns : Nat) := by
  have hfits : Γ.Fits [Decimal.concat ns] := by
    refine Ctx.Allows.mono h ?_
    simpa [Decimal.joined] using Decimal.length_toDigits_concat hne
  rw [Ctx.sm3Hash, Ctx.str_natCast, if_pos hfits]
  rfl

/-- The hash of a concatenation of naturals. -/
theorem Ctx.sm3Cat_fields (Γ : Ctx) (ns : List Nat) (hne : ns ≠ []) :
    Γ.sm3Cat (fields ns) = if Γ.Fits ns then .ok (Γ.sm3Nat ns : Nat) else .error .valueError := by
  rw [Ctx.sm3Cat, Ctx.cat_fields Γ ns hne]
  by_cases h : Γ.Fits ns
  · rw [if_pos h, if_pos h, ok_bind, Ctx.sm3Hash_concat ns hne h]
  · rw [if_neg h, if_neg h]
    rfl

end AuthVideo
