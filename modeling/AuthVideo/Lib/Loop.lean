import Mathlib.Data.Nat.Init
import Mathlib.Tactic.Basic

/-!
# Loops that may not end

A turn of a loop goes on with a state or ends with a result, and may itself not return. A loop is run with fuel; `none` is a run
that has not ended. The rule for total correctness asks for an invariant and a variant, the rule for divergence for a set of
states that every turn keeps. A loop that counts down always ends; its states are numbered by the last index whose turn is done.
-/

namespace Loop

variable {σ β : Type*}

/-- At most `fuel` turns. -/
def iterate (turn : σ → Option (σ ⊕ β)) : ℕ → σ → Option β
  | 0, _ => none
  | fuel + 1, s =>
    match turn s with
    | none => none
    | some (.inl s') => iterate turn fuel s'
    | some (.inr b) => some b

/-- A turn of total correctness: it returns, and either keeps the invariant and lowers the variant or ends with a result. -/
def Turn (turn : σ → Option (σ ⊕ β)) (Inv : σ → Prop) (variant : σ → ℕ) (Post : β → Prop) : Prop :=
  ∀ s, Inv s → (∃ s', turn s = some (.inl s') ∧ Inv s' ∧ variant s' < variant s) ∨ ∃ b, turn s = some (.inr b) ∧ Post b

/-- The rule of total correctness. Fuel above the variant lets the loop end. -/
theorem iterate_of_variant {turn : σ → Option (σ ⊕ β)} {Inv : σ → Prop} {variant : σ → ℕ} {Post : β → Prop}
    (hturn : Turn turn Inv variant Post) {s : σ} (hs : Inv s) {fuel : ℕ} (hfuel : variant s < fuel) :
    ∃ b, iterate turn fuel s = some b ∧ Post b := by
  induction fuel generalizing s with
  | zero => exact absurd hfuel (Nat.not_lt_zero _)
  | succ fuel ih =>
    obtain ⟨s', hs', hinv, hlt⟩ | ⟨b, hb, hpost⟩ := hturn s hs
    · obtain ⟨b, hb, hpost⟩ := ih hinv (Nat.lt_of_lt_of_le hlt (Nat.le_of_lt_succ hfuel))
      exact ⟨b, by rw [iterate, hs']; exact hb, hpost⟩
    · exact ⟨b, by rw [iterate, hb], hpost⟩

/-- The rule of divergence. From a set of states that every turn keeps no fuel lets the loop end. -/
theorem iterate_of_stays {turn : σ → Option (σ ⊕ β)} {Inv : σ → Prop}
    (hturn : ∀ s, Inv s → ∃ s', turn s = some (.inl s') ∧ Inv s') {s : σ} (hs : Inv s) (fuel : ℕ) :
    iterate turn fuel s = none := by
  induction fuel generalizing s with
  | zero => rfl
  | succ fuel ih =>
    obtain ⟨s', hs', hinv⟩ := hturn s hs
    rw [iterate, hs']
    exact ih hinv

/-- The simulation rule. Two loops whose turns keep a relation between their states, and end together with one result, run alike. -/
theorem iterate_of_simulation {τ : Type*} {turn : σ → Option (σ ⊕ β)} {turn' : τ → Option (τ ⊕ β)} {Rel : σ → τ → Prop}
    (hturn : ∀ s t, Rel s t →
      (∃ s' t', turn s = some (.inl s') ∧ turn' t = some (.inl t') ∧ Rel s' t') ∨
        ∃ b, turn s = some (.inr b) ∧ turn' t = some (.inr b)) {s : σ} {t : τ} (h : Rel s t) (fuel : ℕ) :
    iterate turn fuel s = iterate turn' fuel t := by
  induction fuel generalizing s t with
  | zero => rfl
  | succ fuel ih =>
    rcases hturn s t h with ⟨s', t', hs', ht', hrel⟩ | ⟨b, hs', ht'⟩
    · rw [iterate, iterate, hs', ht']
      exact ih hrel
    · rw [iterate, iterate, hs', ht']

/-! ## Loops that count down -/

/-- The state when a loop from `k - 1` down to 0 has done the turns from `k - 1` down to `i`. -/
def downTo (turn : σ → ℕ → σ) (s : σ) (k i : ℕ) : σ := ((List.range k).reverse.take (k - i)).foldl turn s

@[simp] theorem downTo_self (turn : σ → ℕ → σ) (s : σ) (k : ℕ) : downTo turn s k k = s := by
  rw [downTo, Nat.sub_self, List.take_zero, List.foldl_nil]

/-- The whole loop. -/
theorem downTo_zero (turn : σ → ℕ → σ) (s : σ) (k : ℕ) : downTo turn s k 0 = (List.range k).reverse.foldl turn s := by
  rw [downTo, Nat.sub_zero, List.take_of_length_le (by simp)]

/-- The turn at `i`. -/
theorem downTo_turn (turn : σ → ℕ → σ) (s : σ) {k i : ℕ} (hi : i < k) :
    downTo turn s k i = turn (downTo turn s k (i + 1)) i := by
  have hlen : k - (i + 1) < (List.range k).reverse.length := by
    rw [List.length_reverse, List.length_range]
    omega
  have hget : (List.range k).reverse[k - (i + 1)] = i := by
    rw [List.getElem_reverse, List.getElem_range, List.length_range]
    omega
  have hsucc : k - i = k - (i + 1) + 1 := by omega
  rw [downTo, hsucc, List.take_succ_eq_append_getElem hlen, hget, List.foldl_append]
  rfl

end Loop
