import AuthVideo.Lemmas.EmbeddedChebyshev

/-!
# Theorems 22 and 23: the Chebyshev polynomial on the boards

From a `carry4` of zero the C code computes what the recurrence of the simulation does. A call leaves in `carry4` the carry of its
last addition, and a call that starts with 1 there puts `2x + 1` in the place of `2x`.
-/

namespace AuthVideo

open Matrix ChebyshevValue Polynomial.Chebyshev

/-! ## Refinement of the recurrence -/

/-- A reduced value of the polynomial is the one that the recurrence of the simulation gives. -/
theorem natCast_val_chebT {p : Nat} (hp : 2 ≤ p) (n x : Nat) :
    ((chebT n (x : ZMod p)).val : Int) = chebyshevPolynomial n x p := by
  have : NeZero p := ⟨by omega⟩
  have hmap := map_chebT (Int.castRingHom (ZMod p)) n (x : ℤ)
  simp only [eq_intCast, Int.cast_natCast] at hmap
  rw [chebyshevPolynomial_eq, ← ZMod.val_intCast, hmap]

/-- Theorem 22 (refinement). From the fresh state, with any fuel from 1026 on, `chebyshev_Tn` ends with `T_n(x)` modulo `p`, and
for an index from 1 on with `T_{n-1}(x)` modulo `p`, as the recurrence of the simulation has them. -/
theorem chebyshevTn_refines {fuel : Nat} (hfuel : 1026 ≤ fuel) {n x p : Uint256} (hp : 2 ≤ p.value) (hx : x.value < p.value) :
    ∃ out carry4, chebyshevTn fuel 0 n x p = some (out, carry4) ∧
      (out.Tn.value : Int) = chebyshevPolynomial n.value x.value p.value ∧
      (1 ≤ n.value → (out.TnMinus1.value : Int) = chebyshevPolynomial (n.value - 1) x.value p.value) := by
  have hone : (1 : Int) % p.value = 1 := Int.emod_eq_of_lt (by decide) (by omega)
  have hxmod : (x.value : Int) % p.value = x.value := Int.emod_eq_of_lt (by omega) (by omega)
  by_cases hsmall : n.value < 2
  · refine ⟨_, 0, chebyshevTn_small fuel 0 x p hsmall, ?_⟩
    by_cases hzero : n.value = 0
    · simp [hzero, chebyshevPolynomial, hone]
    · have hn : n.value = 1 := by omega
      simp [hn, chebyshevPolynomial, hone, hxmod]
  · obtain ⟨out, carry, hout, hTn, hTm, -⟩ := chebyshevTn_spec hfuel 0 (Nat.zero_le 1) (Nat.not_lt.mp hsmall) hp hx rfl
    rw [UInt64.toNat_zero, Nat.cast_zero, transferFrom_zero] at hTn hTm
    rw [transfer_row_zero, Nat.sub_add_cancel (by omega)] at hTn
    rw [transfer_row_one] at hTm
    refine ⟨out, carry, hout, ?_, fun _ => ?_⟩
    · rw [hTn, natCast_val_chebT hp]
    · rw [hTm, natCast_val_chebT hp]

/-- A number of 256 bits. -/
def uint256 (n : Nat) : Uint256 := ⟨(List.range 8).map fun i => .ofNat (n >>> (32 * i)), by simp⟩

/-- The fifth polynomial at 2 modulo 7, and the fourth. -/
theorem chebyshevTn_refines_seven :
    ∃ out carry4, chebyshevTn 1026 0 (uint256 5) (uint256 2) (uint256 7) = some (out, carry4) ∧
      (out.Tn.value : Int) = chebyshevPolynomial (uint256 5).value (uint256 2).value (uint256 7).value ∧
      (1 ≤ (uint256 5).value →
        (out.TnMinus1.value : Int) = chebyshevPolynomial ((uint256 5).value - 1) (uint256 2).value (uint256 7).value) :=
  chebyshevTn_refines (by decide) (by decide) (by decide)

/-! ## History -/

/-- A call of `chebyshev_Tn`, on a modulus from 2 on and a reduced `x`. -/
structure ChebyshevCall where
  n : Uint256
  x : Uint256
  p : Uint256
  two_le : 2 ≤ p.value
  x_lt : x.value < p.value

/-- The call from `carry4`. -/
def ChebyshevCall.run (fuel : Nat) (carry4 : UInt64) (call : ChebyshevCall) : Option (ChebyshevOut × UInt64) :=
  chebyshevTn fuel carry4 call.n call.x call.p

/-- The `carry4` that calls leave behind, from the fresh state. -/
def carryAfter (fuel : Nat) (calls : List ChebyshevCall) : Option UInt64 :=
  calls.foldlM (fun carry4 call => (·.2) <$> call.run fuel carry4) 0

/-- What a call writes after earlier ones. -/
def outputAfter (fuel : Nat) (earlier : List ChebyshevCall) (call : ChebyshevCall) : Option ChebyshevOut := do
  let carry4 ← carryAfter fuel earlier
  let (out, _) ← call.run fuel carry4
  return out

/-- What a call writes depends on the earlier ones through the `carry4` that they leave. -/
theorem outputAfter_of_carry {fuel : Nat} (earlier : List ChebyshevCall) {carry4 : UInt64}
    (h : carryAfter fuel earlier = some carry4) (call : ChebyshevCall) :
    outputAfter fuel earlier call = (·.1) <$> call.run fuel carry4 := by
  rw [outputAfter, h, Option.bind_eq_bind, Option.bind_some]
  cases call.run fuel carry4 with
  | none => rfl
  | some result => rfl

/-- The last addition of a call, `x U_{n-2}(x)` and `-U_{n-3}(x)` modulo `p`, stays within 256 bits. A call with an index below 2
makes none. -/
def ChebyshevCall.LastSumFits (call : ChebyshevCall) : Prop :=
  call.n.value < 2 ∨
    ((U (ZMod call.p.value) (call.n.value - 2)).eval (call.x.value : ZMod call.p.value) * call.x.value).val +
      (-(U (ZMod call.p.value) (call.n.value - 3)).eval (call.x.value : ZMod call.p.value)).val < 2 ^ 256

/-- A call from a `carry4` of zero leaves zero exactly when its last sum fits, and 1 otherwise. -/
theorem run_zero {fuel : Nat} (hfuel : 1026 ≤ fuel) (call : ChebyshevCall) :
    ∃ out carry4, call.run fuel 0 = some (out, carry4) ∧ (carry4 = 0 ↔ call.LastSumFits) ∧ carry4.toNat ≤ 1 := by
  by_cases hsmall : call.n.value < 2
  · exact ⟨_, 0, chebyshevTn_small fuel 0 call.x call.p hsmall, ⟨fun _ => .inl hsmall, fun _ => rfl⟩, Nat.zero_le 1⟩
  · obtain ⟨out, carry, hout, -, -, hlast, hle⟩ :=
      chebyshevTn_spec hfuel 0 (Nat.zero_le 1) (Nat.not_lt.mp hsmall) call.two_le call.x_lt rfl
    refine ⟨out, carry, hout, ?_, hle⟩
    rw [UInt64.toNat_zero, Nat.cast_zero, transferFrom_zero, transfer_pow] at hlast
    have hfirst : ((call.n.value - 1 : ℕ) : ℤ) - 1 = call.n.value - 2 := by omega
    have hsecond : ((call.n.value - 1 : ℕ) : ℤ) - 2 = call.n.value - 3 := by omega
    rw [hlast, ChebyshevCall.LastSumFits, hfirst, hsecond]
    simp [hsmall]

/-- Calls whose last sums fit leave zero. -/
theorem carryAfter_of_fits {fuel : Nat} (hfuel : 1026 ≤ fuel) {calls : List ChebyshevCall}
    (hfit : ∀ c ∈ calls, c.LastSumFits) : carryAfter fuel calls = some 0 := by
  unfold carryAfter
  induction calls with
  | nil => rfl
  | cons c calls ih =>
    rw [List.forall_mem_cons] at hfit
    obtain ⟨out, carry4, hrun, hzero, -⟩ := run_zero hfuel c
    rw [List.foldlM_cons, hrun, hzero.mpr hfit.1]
    exact ih hfit.2

/-- A call that follows calls whose last sums fit, and whose own does not, leaves 1. -/
theorem carryAfter_of_not_fits {fuel : Nat} (hfuel : 1026 ≤ fuel) {calls : List ChebyshevCall}
    (hfit : ∀ c ∈ calls, c.LastSumFits) {c : ChebyshevCall} (hc : ¬c.LastSumFits) :
    carryAfter fuel (calls ++ [c]) = some 1 := by
  obtain ⟨out, carry4, hrun, hzero, hle⟩ := run_zero hfuel c
  have hone : carry4 = 1 := by
    have hne : carry4.toNat ≠ 0 := fun h => hc (hzero.mp (UInt64.toNat_inj.mp h))
    exact UInt64.toNat_inj.mp (Nat.le_antisymm hle (Nat.one_le_iff_ne_zero.mpr hne))
  have hbefore := carryAfter_of_fits hfuel hfit
  rw [carryAfter] at hbefore
  rw [carryAfter, List.foldlM_append, hbefore, Option.bind_eq_bind, Option.bind_some, List.foldlM_cons, hrun, hone]
  rfl

/-- The call at index 2 and `x = 1` modulo 3. -/
def probe : ChebyshevCall := ⟨uint256 2, uint256 1, uint256 3, by decide, by decide⟩

/-- The probe tells a `carry4` of 1 from one of zero. -/
theorem probe_run_ne {fuel : Nat} (hfuel : 1026 ≤ fuel) : (·.1) <$> probe.run fuel 1 ≠ (·.1) <$> probe.run fuel 0 := by
  obtain ⟨out1, carry1, hrun1, hTn1, -⟩ :=
    chebyshevTn_spec hfuel 1 (n := probe.n) (Nat.le_refl 1) (by decide) probe.two_le probe.x_lt rfl
  obtain ⟨out0, carry0, hrun0, hTn0, -⟩ :=
    chebyshevTn_spec hfuel 0 (n := probe.n) (Nat.zero_le 1) (by decide) probe.two_le probe.x_lt rfl
  have hn : probe.n.value - 1 = 1 := by decide
  have hx : probe.x.value = 1 := by decide
  rw [hn, pow_one, hx] at hTn1 hTn0
  have : Fact (1 < probe.p.value) := ⟨by decide⟩
  intro heq
  rw [ChebyshevCall.run, ChebyshevCall.run, hrun1, hrun0] at heq
  have hout : out1 = out0 := Option.some.inj heq
  rw [hout, hTn0] at hTn1
  have hval := ZMod.val_injective _ hTn1
  simp [transferFrom] at hval

/-- Theorem 23 (history). In every run of calls, each call that could follow at any point writes what it writes from the fresh
state exactly when the last sum of every call in the run fits into 256 bits. -/
theorem outputAfter_eq_iff {fuel : Nat} (hfuel : 1026 ≤ fuel) (calls : List ChebyshevCall) :
    (∀ earlier, earlier <+: calls → ∀ call, outputAfter fuel earlier call = outputAfter fuel [] call) ↔
      ∀ c ∈ calls, c.LastSumFits := by
  constructor
  · intro h
    induction calls using List.reverseRecOn with
    | nil => exact fun c hc => absurd hc List.not_mem_nil
    | append_singleton calls c ih =>
      have hfit := ih fun earlier hpre => h earlier (hpre.trans (List.prefix_append calls [c]))
      have hc : c.LastSumFits := by
        by_contra hnot
        have hprobe := h (calls ++ [c]) (List.prefix_refl _) probe
        rw [outputAfter_of_carry _ (carryAfter_of_not_fits hfuel hfit hnot), outputAfter_of_carry [] rfl] at hprobe
        exact probe_run_ne hfuel hprobe
      intro d hd
      rcases List.mem_append.mp hd with hd | hd
      · exact hfit d hd
      · rwa [List.mem_singleton.mp hd]
  · intro hfit earlier hpre call
    have hzero := carryAfter_of_fits hfuel fun c hc => hfit c (hpre.subset hc)
    rw [outputAfter_of_carry earlier hzero, outputAfter_of_carry [] rfl]

/-- Modulo a number of at most 255 bits every last sum fits. -/
theorem lastSumFits_of_le {call : ChebyshevCall} (h : call.p.value ≤ 2 ^ 255) : call.LastSumFits := by
  have : NeZero call.p.value := ⟨by have := call.two_le; omega⟩
  refine .inr ?_
  have hlt : ∀ a b : ZMod call.p.value, a.val + b.val < 2 ^ 256 := by
    intro a b
    have ha := a.val_lt
    have hb := b.val_lt
    omega
  exact hlt _ _

/-- The call at index 3 and `x = 1` modulo `2 ^ 256 - 1`. Its last sum is `2 ^ 256`. -/
def carryCall : ChebyshevCall := ⟨uint256 3, uint256 1, uint256 (2 ^ 256 - 1), by decide, by decide⟩

/-- After a call modulo 3 the call that carries writes what it writes from the fresh state. -/
theorem outputAfter_eq_iff_probe : outputAfter 1026 [probe] carryCall = outputAfter 1026 [] carryCall :=
  (outputAfter_eq_iff (by decide) [probe]).mpr
    (fun _ hc => lastSumFits_of_le (List.mem_singleton.mp hc ▸ by decide)) [probe] (List.prefix_refl _) carryCall

/-- The summands of its last sum are 2 and the modulus less 1. -/
theorem not_lastSumFits_carryCall : ¬carryCall.LastSumFits := by
  have hn : carryCall.n.value = 3 := by decide
  have hx : carryCall.x.value = 1 := by decide
  have hp : carryCall.p.value = 2 ^ 256 - 1 := by decide +kernel
  have : Fact (1 < carryCall.p.value) := ⟨by omega⟩
  have : NeZero carryCall.p.value := ⟨by omega⟩
  have hfirst : ((3 : ℕ) : ℤ) - 2 = 1 := by decide
  have hsecond : ((3 : ℕ) : ℤ) - 3 = 0 := by decide
  rintro (hsmall | hsum)
  · omega
  · rw [hn, hx, hfirst, hsecond, U_one, U_zero] at hsum
    simp only [Polynomial.eval_mul, Polynomial.eval_ofNat, Polynomial.eval_X, Polynomial.eval_one, Nat.cast_one, mul_one,
      ZMod.neg_val, one_ne_zero, if_false, ZMod.val_one, ZMod.val_two_eq_two_mod] at hsum
    rw [Nat.mod_eq_of_lt (by omega)] at hsum
    omega

/-- The call at index 2 and `x = 1` modulo 3 writes 2 after another call, and 1 from the fresh state. -/
theorem outputAfter_carryCall : outputAfter 1026 [carryCall] probe ≠ outputAfter 1026 [] probe := by
  have hone : carryAfter 1026 [carryCall] = some 1 :=
    carryAfter_of_not_fits (Nat.le_refl _) (fun _ hc => absurd hc List.not_mem_nil) not_lastSumFits_carryCall
  rw [outputAfter_of_carry _ hone, outputAfter_of_carry [] rfl]
  exact probe_run_ne (Nat.le_refl _)

end AuthVideo
