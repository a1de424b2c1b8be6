import AuthVideo.Lemmas.Symbolic

/-!
# What the two roles send

The device sends known terms, encrypted factors, and exclusive ors with its mask. The centre never accepts anything: it compares
with a registration whose `L` it has drawn itself and that nobody else has.
-/

namespace AuthVideo

open Calculus

section Roles

variable {allow : Proc → List Bitstring → Prop} {origin : Nat → Option Fresh} {good : Event → Prop}

/-- The set that the attacker's knowledge stays in. -/
abbrev Proc.KeepsSafe (allow : Proc → List Bitstring → Prop) (origin : Nat → Option Fresh) (good : Event → Prop) (P : Proc) :
    Prop :=
  Process.Keeps theory allow origin (fun t => Safe origin t.norm) good P

/-- The encrypted parameter of a centre's own registration is not known, nor is any term that decrypts to it. -/
theorem not_safe_of_decrypts {L : Nat} (hL : origin L = some .L) {t : Bitstring} (ht : Safe origin t.norm) :
    ¬Eqv (.adec t (.free .AuthK)) (registeredA (.name L)) := by
  intro h
  have hnorm : Bitstring.reduceAdec t.norm (.free .AuthK) = registeredA (.name L) := eqv_iff.mp h
  rcases Bitstring.reduceAdec_cases t.norm (.free .AuthK) with ⟨m, hm, hreduce⟩ | hadec
  · obtain rfl : m = registeredA (.name L) := hreduce.symm.trans hnorm
    rw [hm] at ht
    rcases ht with ⟨hsafe, -⟩ | ⟨hsealed, -⟩
    · exact hsafe.1
    · rcases hsealed with hPW | ⟨l, hl, hPID | hA⟩
      · cases hPW
      · cases hPID
      · cases hA
        rw [DeviceName, hL] at hl
        cases hl
  · rw [hadec] at hnorm
    cases hnorm

/-- The centre keeps to the set, and it raises no event. -/
theorem center_keeps {L : Nat} (hL : origin L = some .L) :
    (TrustCenter.registered (.name L)).KeepsSafe allow origin good := by
  intro v hv _
  refine ⟨fun _ => ⟨fun hV => ?_, fun _ => trivial⟩, fun _ => trivial⟩
  -- the comparison of the verifiers fails
  exfalso
  have hnorm := eqv_iff.mp hV
  have hA : Eqv (.adec (v 2) (.free .AuthK)) (registeredA (.name L)) := by
    refine eqv_iff.mpr ?_
    simp only [Bitstring.norm, Bitstring.T.injEq, true_and, and_true] at hnorm
    exact hnorm
  exact not_safe_of_decrypts hL (hv 2) hA

/-- The device keeps to the set, if it does after its last wait. -/
theorem device_keeps {l : Nat} (hl : origin l = some .L0) (hbegin : ∀ PID, good (.AuthDevBegin PID))
    (hend : ∀ PID A Authr rDev, (EndDevice.waitM4 PID A Authr rDev).KeepsSafe allow origin good) :
    (EndDevice (.pk (.free .AuthK)) (registeredPID (.name l)) (registeredA (.name l))).KeepsSafe allow origin good := by
  have hmask : Masking origin (.T (registeredA (.name l)) (.free .PK)) := ⟨l, hl, rfl⟩
  have hPID : Safe origin (.aenc (registeredPID (.name l)) (.pk (.free .AuthK))) := Or.inr ⟨Or.inr ⟨l, hl, Or.inl rfl⟩, rfl⟩
  have hPW : Safe origin (.aenc (.free .PW) (.pk (.free .AuthK))) := Or.inr ⟨Or.inl rfl, rfl⟩
  have hA : Safe origin (.aenc (registeredA (.name l)) (.pk (.free .AuthK))) := Or.inr ⟨Or.inr ⟨l, hl, Or.inr rfl⟩, rfl⟩
  refine ⟨hbegin _, ?_, ?_⟩
  · have htag : Safe origin (.hash (.c3 (.aenc (registeredPID (.name l)) (.pk (.free .AuthK)))
        (.aenc (.free .PW) (.pk (.free .AuthK))) (.aenc (registeredA (.name l)) (.pk (.free .AuthK))))) := ⟨hPID, hPW, hA⟩
    simp only [List.forall_mem_cons]
    exact ⟨hPID, hPW, hA, htag, fun _ h => absurd h List.not_mem_nil⟩
  · intro v hv _
    refine ⟨fun _ rDev hrDev => ⟨?_, hend _ _ _ _⟩, fun _ => trivial⟩
    have hname : Safe origin (.name rDev) := by
      unfold Safe
      rw [hrDev]
      exact ⟨by decide, by decide⟩
    have hQID : Safe origin (Bitstring.reduceXor (v 0).norm (.T (registeredA (.name l)) (.free .PK))) :=
      (hv 0).reduceXor (Or.inr hmask)
    have hAuthr : Safe origin (Bitstring.reduceXor (v 1).norm (.T (registeredA (.name l)) (.free .PK))) :=
      (hv 1).reduceXor (Or.inr hmask)
    have hN2 : Safe origin (Bitstring.reduceXor (.name rDev) (.T (registeredA (.name l)) (.free .PK))) :=
      hname.reduceXor (Or.inr hmask)
    have hsum : Safe origin (.T (.plus (Bitstring.reduceXor (v 1).norm (.T (registeredA (.name l)) (.free .PK))) (.name rDev))
        (.free .PK)) := ⟨⟨hAuthr, hname⟩, trivial⟩
    simp only [List.forall_mem_cons]
    exact ⟨hN2, hsum, hQID, ⟨hN2, hsum, hQID⟩, fun _ h => absurd h List.not_mem_nil⟩

/-- After its last wait the device raises two events. -/
theorem waitM4_keeps (hgood : ∀ PID ks, good (.KeyDev PID ks) ∧ good (.AuthDevEnd PID)) (PID A Authr rDev : Bitstring) :
    (EndDevice.waitM4 PID A Authr rDev).KeepsSafe allow origin good := by
  intro v _ _
  exact ⟨fun _ => ⟨(hgood _ _).1, (hgood PID .nil).2, trivial⟩, fun _ => trivial⟩

end Roles

end AuthVideo
