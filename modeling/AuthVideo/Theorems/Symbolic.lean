import Mathlib.Data.Fin.VecNotation
import AuthVideo.Lemmas.Roles

/-!
# Theorems 11 to 13: the symbolic model

The two roles of `my_demo_1.pv` draw the name of the registration each for itself, so the verifier of the centre is never that
of the device. The honest run does not complete; no key of the centre precedes a key of the device; and the factors of the user
stay secret, whatever the number of sessions.
-/

namespace AuthVideo

open Calculus

/-- The roles of the file, and its processes. -/
def IsRole (P : Proc) : Prop := P = TrustCenter ∨ P = deviceBranch ∨ P = mainProcess ∨ P = replicatedProcess

section Runs

variable {allow : Proc → List Bitstring → Prop} {good : Event → Prop}

/-- The roles keep to the safe terms. -/
theorem IsRole.keeps {P : Proc} (hP : IsRole P) (origin : Nat → Option Fresh) (hbegin : ∀ PID, good (.AuthDevBegin PID))
    (hend : ∀ PID A Authr rDev, (EndDevice.waitM4 PID A Authr rDev).KeepsSafe allow origin good) :
    P.KeepsSafe allow origin good := by
  have hcenter : TrustCenter.KeepsSafe allow origin good := fun _ hL => center_keeps hL
  have hdevice : deviceBranch.KeepsSafe allow origin good := fun _ hL0 => device_keeps hL0 hbegin hend
  rcases hP with rfl | rfl | rfl | rfl
  · exact hcenter
  · exact hdevice
  · exact ⟨hcenter, hdevice⟩
  · exact ⟨hcenter, hdevice⟩

/-- What holds in every state that the roles get into. -/
theorem within_of_run {procs : List Proc} (hprocs : ∀ P ∈ procs, IsRole P) (hbegin : ∀ PID, good (.AuthDevBegin PID))
    (hend : ∀ origin PID A Authr rDev, (EndDevice.waitM4 PID A Authr rDev).KeepsSafe allow origin good)
    {c : Config Bitstring Fresh Event} (h : Run theory allow (Config.start procs) c) :
    ∃ origin, c.Within theory allow origin (fun t => Safe origin t.norm) good := by
  refine Run.within closed_safe ?_ (Config.distinct_start procs) h
  intro origin _
  refine ⟨?_, ?_, ?_⟩
  · intro P hP
    exact (hprocs P hP).keeps origin hbegin (hend origin)
  · intro m hm
    exact absurd hm List.not_mem_nil
  · intro e he
    exact absurd he List.not_mem_nil

/-- The centre never gets as far as its events. -/
theorem no_center_event {procs : List Proc} (hprocs : ∀ P ∈ procs, IsRole P) {c : Config Bitstring Fresh Event}
    (h : Run theory anything (Config.start procs) c) :
    ∀ e ∈ c.trace, (∀ PID, e ≠ .AuthTCEnd PID) ∧ ∀ PID ks, e ≠ .KeyTC PID ks := by
  let good : Event → Prop := fun e => (∀ PID, e ≠ .AuthTCEnd PID) ∧ ∀ PID ks, e ≠ .KeyTC PID ks
  have hbegin : ∀ PID, good (.AuthDevBegin PID) := fun _ => ⟨nofun, nofun⟩
  obtain ⟨origin, hwithin⟩ := within_of_run hprocs hbegin (fun _ => waitM4_keeps fun _ _ => ⟨⟨nofun, nofun⟩, nofun, nofun⟩) h
  exact hwithin.trace

end Runs

/-! ## Theorem 11 -/

/-- What a run of both roles reaches when it completes: both have ended with the same pseudonym, and with the same key. -/
def Completed (t : List Event) : Prop :=
  ∃ PID PID' ks ks', .AuthTCEnd PID ∈ t ∧ .AuthDevEnd PID' ∈ t ∧ .KeyTC PID ks ∈ t ∧ .KeyDev PID' ks' ∈ t ∧
    Eqv PID PID' ∧ Eqv ks ks'

/-- Both roles after their registrations, with the names that they have drawn. -/
def registeredRoles (L L0 : Nat) : Network Bitstring Fresh Event :=
  ⟨EndDevice (.pk (.free .AuthK)) (registeredPID (.name L0)) (registeredA (.name L0)), TrustCenter.registered (.name L), [], [],
    [], [(some .L, L), (some .L0, L0)]⟩

/-- The events of an honest run with one name for both registrations. The centre unmasks with what it decrypted. -/
def sharedTrace (L Authr rDev : Bitstring) : List Event :=
  let PID := registeredPID L
  let A := registeredA L
  let PID2 := Bitstring.adec (.aenc PID (.pk (.free .AuthK))) (.free .AuthK)
  let A2 := Bitstring.adec (.aenc A (.pk (.free .AuthK))) (.free .AuthK)
  let V := Bitstring.T (.free .SK) (.T A (.free .x))
  [.AuthDevBegin PID, .AuthTCBegin PID2, .KeyTC PID2 (.hash (.c3 V Authr (.xor (.xor rDev (.T A (.free .PK))) (.T A2 (.free .PK))))),
    .AuthTCEnd PID2, .KeyDev PID (.hash (.c3 V (.xor (.xor Authr (.T A2 (.free .PK))) (.T A (.free .PK))) rDev)),
    .AuthDevEnd PID]

/-- With one name for both registrations, the honest run goes to its end. -/
theorem shared_run (L : Nat) :
    ∃ N, Delivery theory (registeredRoles L L) N ∧ N.trace = sharedTrace (.name L) (.name (L + 1)) (.name (L + 2)) := by
  have hA2 : Eqv (.adec (.aenc (registeredA (.name L)) (.pk (.free .AuthK))) (.free .AuthK)) (registeredA (.name L)) :=
    Eqv.adec_aenc _ _
  have hAuthr : L + 1 ∉ [L, L] := by simp
  have hrDev : L + 2 ∉ [L + 1, L, L] := by simp
  unfold registeredRoles
  -- M1
  refine Delivery.head (.left (.event _ _) trivial) ?_
  refine Delivery.head (.left (.out _ _) trivial) ?_
  refine Delivery.head (.right (.inp 4 _ ![_, _, _, _]) rfl) ?_
  refine Delivery.head (.right (.condTrue _ _ _ _ (Eqv.refl _)) trivial) ?_
  refine Delivery.head (.right (.condTrue _ _ _ _ (Eqv.T (Eqv.refl _) (Eqv.T hA2 (Eqv.refl _)))) trivial) ?_
  -- M2
  refine Delivery.head (.right (.event _ _) trivial) ?_
  refine Delivery.head (.right (.new _ _ (L + 1)) hAuthr) ?_
  refine Delivery.head (.right (.out _ _) trivial) ?_
  refine Delivery.head (.left (.inp 3 _ ![_, _, _]) rfl) ?_
  refine Delivery.head (.left (.condTrue _ _ _ _ (Eqv.refl _)) trivial) ?_
  -- M3
  refine Delivery.head (.left (.new _ _ (L + 2)) hrDev) ?_
  refine Delivery.head (.left (.out _ _) trivial) ?_
  refine Delivery.head (.right (.inp 4 _ ![_, _, _, _]) rfl) ?_
  refine Delivery.head (.right (.condTrue _ _ _ _ (Eqv.refl _)) trivial) ?_
  -- M4
  refine Delivery.head (.right (.out _ _) trivial) ?_
  refine Delivery.head (.right (.event _ _) trivial) ?_
  refine Delivery.head (.right (.event _ _) trivial) ?_
  refine Delivery.head (.left (.inp 3 _ ![_, _, _]) rfl) ?_
  refine Delivery.head (.left (.condTrue _ _ _ _ (Eqv.refl _)) trivial) ?_
  refine Delivery.head (.left (.event _ _) trivial) ?_
  refine Delivery.head (.left (.event _ _) trivial) ?_
  exact ⟨_, Relation.ReflTransGen.refl, rfl⟩

/-- What the honest run raises is what a completed run raises. -/
theorem completed_shared (L Authr rDev : Bitstring) : Completed (sharedTrace L Authr rDev) := by
  have hmask : Eqv (.T (.adec (.aenc (registeredA L) (.pk (.free .AuthK))) (.free .AuthK)) (.free .PK))
      (.T (registeredA L) (.free .PK)) := Eqv.T (Eqv.adec_aenc _ _) (Eqv.refl _)
  have hrDev : Eqv (.xor (.xor rDev (.T (registeredA L) (.free .PK)))
      (.T (.adec (.aenc (registeredA L) (.pk (.free .AuthK))) (.free .AuthK)) (.free .PK))) rDev :=
    (Eqv.xor (Eqv.refl _) hmask).trans (Eqv.xor_cancel _ _)
  have hAuthr : Eqv (.xor (.xor Authr (.T (.adec (.aenc (registeredA L) (.pk (.free .AuthK))) (.free .AuthK)) (.free .PK)))
      (.T (registeredA L) (.free .PK))) Authr :=
    (Eqv.xor (Eqv.xor (Eqv.refl _) hmask) (Eqv.refl _)).trans (Eqv.xor_cancel _ _)
  refine ⟨_, _, _, _, ?_, ?_, ?_, ?_, Eqv.adec_aenc (registeredPID L) (.free .AuthK),
    Eqv.hash (Eqv.c3 (Eqv.refl (.T (.free .SK) (.T (registeredA L) (.free .x)))) hAuthr.symm hrDev)⟩ <;>
  simp [sharedTrace]

/-- With two names for the registrations, the centre does not get as far as its events. -/
theorem no_center_event_registered {L L0 : Nat} (hne : L ≠ L0) {N : Network Bitstring Fresh Event}
    (h : Delivery theory (registeredRoles L L0) N) : ∀ e ∈ N.trace, ∀ PID, e ≠ .AuthTCEnd PID := by
  have hunder : (registeredRoles L L0).Under ⟨[(registeredRoles L L0).left, (registeredRoles L L0).right], [], [],
      [(some .L, L), (some .L0, L0)]⟩ :=
    ⟨rfl, fun _ h => absurd h List.not_mem_nil, fun _ h => absurd h List.not_mem_nil, rfl, rfl⟩
  obtain ⟨c, hrun, hunder'⟩ := h.run hunder
  let good : Event → Prop := fun e => ∀ PID, e ≠ .AuthTCEnd PID
  let start : Config Bitstring Fresh Event := ⟨[(registeredRoles L L0).left, (registeredRoles L L0).right], [], [],
    [(some .L, L), (some .L0, L0)]⟩
  have hstart : ∀ origin, start.Agrees origin → start.Within theory anything origin (fun t => Safe origin t.norm) good := by
    intro origin hagrees
    have hL : origin L = some .L := hagrees (some .L) L List.mem_cons_self
    have hL0 : origin L0 = some .L0 := hagrees (some .L0) L0 (List.mem_cons_of_mem _ List.mem_cons_self)
    refine ⟨?_, fun _ h => absurd h List.not_mem_nil, fun _ h => absurd h List.not_mem_nil⟩
    simp only [start, List.forall_mem_cons]
    exact ⟨device_keeps hL0 (fun _ => nofun) fun _ _ _ _ => waitM4_keeps (fun _ _ => ⟨nofun, nofun⟩) _ _ _ _,
      center_keeps hL, fun _ h => absurd h List.not_mem_nil⟩
  have hdistinct : start.Distinct := by simp [start, Config.Distinct, hne]
  obtain ⟨origin, hwithin⟩ := Run.within closed_safe hstart hdistinct hrun
  rw [← hunder'.trace]
  exact hwithin.trace

/-- No run over the network completes. -/
theorem not_completed {N : Network Bitstring Fresh Event} (h : Delivery theory (Network.start deviceBranch TrustCenter) N) :
    ¬Completed N.trace := by
  rintro ⟨PID, PID', ks, ks', hTCEnd, -⟩
  have hunder : (Network.start deviceBranch TrustCenter).Under (Config.start [deviceBranch, TrustCenter]) :=
    ⟨rfl, fun _ h => absurd h List.not_mem_nil, fun _ h => absurd h List.not_mem_nil, rfl, rfl⟩
  obtain ⟨c, hrun, hunder'⟩ := h.run hunder
  have hroles : ∀ P ∈ [deviceBranch, TrustCenter], IsRole P := by
    simp [IsRole]
  exact (no_center_event hroles hrun _ (hunder'.trace ▸ hTCEnd)).1 PID rfl

/-- Theorem 11 (honest runs). However the names are chosen, no run in which every message is delivered unchanged completes. The
reason is the name of the registration: with the two names given, a run completes exactly when they are one. -/
theorem honest_run_completes_iff (N : Network Bitstring Fresh Event) (L L0 : Nat) :
    (Delivery theory (Network.start deviceBranch TrustCenter) N → ¬Completed N.trace) ∧
      ((∃ N', Delivery theory (registeredRoles L L0) N' ∧ Completed N'.trace) ↔ L = L0) := by
  constructor
  · intro hN
    exact not_completed hN
  · constructor
    · rintro ⟨N', hN', PID, PID', ks, ks', hTCEnd, -⟩
      by_contra hne
      exact no_center_event_registered hne hN' _ hTCEnd PID rfl
    · rintro rfl
      obtain ⟨N', hrun, htrace⟩ := shared_run L
      exact ⟨N', hrun, htrace ▸ completed_shared _ _ _⟩

/-- The honest run with the names 0 and 1 for the registrations: after M1 the centre has stopped, the device waits, and nothing
is on its way. -/
theorem honest_run_stuck :
    ∃ N, Delivery theory (Network.start deviceBranch TrustCenter) N ∧ (∀ N', ¬Deliver theory N N') ∧ ¬Completed N.trace := by
  have hone : 1 ∉ [0] := by simp
  have hne : ¬Eqv (.T (.free .SK) (.T (.adec (.aenc (registeredA (.name 1)) (.pk (.free .AuthK))) (.free .AuthK)) (.free .x)))
      (.T (.free .SK) (.T (registeredA (.name 0)) (.free .x))) := by
    decide
  have hrun : ∃ N, Delivery theory (Network.start deviceBranch TrustCenter) N ∧
      (∃ P, N.left = .inp 3 P) ∧ N.right = .zero ∧ N.toLeft = [] := by
    unfold Network.start
    refine Delivery.head (.right (.new _ _ 0) List.not_mem_nil) ?_
    refine Delivery.head (.left (.new _ _ 1) hone) ?_
    refine Delivery.head (.left (.event _ _) trivial) ?_
    refine Delivery.head (.left (.out _ _) trivial) ?_
    refine Delivery.head (.right (.inp 4 _ ![_, _, _, _]) rfl) ?_
    refine Delivery.head (.right (.condTrue _ _ _ _ (Eqv.refl _)) trivial) ?_
    refine Delivery.head (.right (.condFalse _ _ _ _ hne) trivial) ?_
    exact ⟨_, Relation.ReflTransGen.refl, ⟨_, rfl⟩, rfl, rfl⟩
  obtain ⟨N, hN, ⟨P, hleft⟩, hright, hbox⟩ := hrun
  refine ⟨N, hN, ?_, not_completed hN⟩
  intro N' hstep
  cases hstep with
  | left hlocal hdelivered =>
    obtain rfl := hleft
    obtain rfl := hbox
    cases hlocal <;> cases hdelivered
  | right hlocal hdelivered =>
    obtain rfl := hright
    cases hlocal

/-! ## Theorem 12 -/

/-- Every key of a device is preceded by the same key of a centre. -/
def Agreement (t : List Event) : Prop :=
  ∀ earlier PID ks later, t = earlier ++ .KeyDev PID ks :: later →
    ∃ PID' ks', .KeyTC PID' ks' ∈ earlier ∧ Eqv PID PID' ∧ Eqv ks ks'

/-- The attacker sends no M4 with the right tag to a device. -/
def Mismatched (P : Proc) (ms : List Bitstring) : Prop :=
  ∀ PID A Authr rDev AuthSumEnc QIDp mac4, P = EndDevice.waitM4 PID A Authr rDev → ms = [AuthSumEnc, QIDp, mac4] →
    ¬Eqv mac4 (.hash (.c2 AuthSumEnc QIDp))

/-- A device to which no M4 with the right tag is sent raises nothing after its last wait. -/
theorem waitM4_keeps_of_mismatched {origin : Nat → Option Fresh} {good : Event → Prop} (PID A Authr rDev : Bitstring) :
    (EndDevice.waitM4 PID A Authr rDev).KeepsSafe Mismatched origin good := by
  intro v _ hallow
  have hne : ¬Eqv (v 2) (.hash (.c2 (v 0) (v 1))) := hallow PID A Authr rDev (v 0) (v 1) (v 2) rfl rfl
  constructor
  · intro heq
    exact absurd heq hne
  · intro _
    trivial

/-- A device that gets an M4 with the right tag raises its key. -/
theorem key_of_M4 {c : Config Bitstring Fresh Event} {ps qs : List Proc} {PID A Authr rDev AuthSumEnc QIDp mac4 : Bitstring}
    (hprocs : c.procs = ps ++ EndDevice.waitM4 PID A Authr rDev :: qs) (hAuthSumEnc : Derives c.known AuthSumEnc)
    (hQIDp : Derives c.known QIDp) (hmac4 : Derives c.known mac4) (htag : Eqv mac4 (.hash (.c2 AuthSumEnc QIDp))) :
    ∃ c', Run theory anything c c' ∧ ∃ ks, c'.trace = c.trace ++ [.KeyDev PID ks] := by
  obtain ⟨procs, known, trace, created⟩ := c
  obtain rfl := hprocs
  have hknown : ∀ m ∈ [AuthSumEnc, QIDp, mac4], theory.Derives known m := by
    simp only [List.forall_mem_cons]
    exact ⟨hAuthSumEnc, hQIDp, hmac4, fun _ h => absurd h List.not_mem_nil⟩
  refine Run.head (Step.focus ps qs (.inp 3 _ ![AuthSumEnc, QIDp, mac4]) hknown) ?_
  refine Run.head (Step.focus ps qs (.condTrue _ _ _ _ htag) trivial) ?_
  refine Run.head (Step.focus ps qs (.event _ _) trivial) ?_
  exact ⟨_, Relation.ReflTransGen.refl, _, rfl⟩

/-- Without an event of the centre, a key of a device breaks the agreement. -/
theorem not_agreement {t : List Event} {PID ks : Bitstring} (hkey : .KeyDev PID ks ∈ t)
    (hcenter : ∀ e ∈ t, ∀ PID ks, e ≠ .KeyTC PID ks) : ¬Agreement t := by
  intro h
  obtain ⟨earlier, later, rfl⟩ := List.append_of_mem hkey
  obtain ⟨PID', ks', hmem, -⟩ := h earlier PID ks later rfl
  exact hcenter _ (List.mem_append_left _ hmem) PID' ks' rfl

/-- Theorem 12 (key agreement). In every run in which no device that waits for M4 is sent a message with the right tag, which
is the hash of its two components, every key of a device is preceded by the same key of a centre. From every state in which
the attacker can send such a message, a run goes on to a state where this fails. -/
theorem agreement_of_mismatched (c : Config Bitstring Fresh Event) :
    (Run theory Mismatched (Config.start [mainProcess]) c → Agreement c.trace) ∧
      (Run theory anything (Config.start [mainProcess]) c → ∀ ps qs PID A Authr rDev,
        c.procs = ps ++ EndDevice.waitM4 PID A Authr rDev :: qs → ∀ AuthSumEnc QIDp mac4, Derives c.known AuthSumEnc →
          Derives c.known QIDp → Derives c.known mac4 → Eqv mac4 (.hash (.c2 AuthSumEnc QIDp)) →
            ∃ c', Run theory anything c c' ∧ ¬Agreement c'.trace) := by
  have hroles : ∀ P ∈ [mainProcess], IsRole P := by
    simp [IsRole]
  constructor
  · intro hrun earlier PID ks later hsplit
    let good : Event → Prop := fun e => ∀ PID ks, e ≠ .KeyDev PID ks
    have hbegin : ∀ PID, good (.AuthDevBegin PID) := fun _ => nofun
    obtain ⟨origin, hwithin⟩ := within_of_run hroles hbegin (fun _ => waitM4_keeps_of_mismatched) hrun
    exact absurd rfl (hwithin.trace _ (by rw [hsplit]; simp) PID ks)
  · intro hrun ps qs PID A Authr rDev hprocs AuthSumEnc QIDp mac4 hAuthSumEnc hQIDp hmac4 htag
    obtain ⟨c', hrun', ks, htrace⟩ := key_of_M4 hprocs hAuthSumEnc hQIDp hmac4 htag
    have hkey : .KeyDev PID ks ∈ c'.trace := by
      rw [htrace]
      exact List.mem_append_right _ List.mem_cons_self
    refine ⟨c', hrun', not_agreement hkey ?_⟩
    intro e he
    exact (no_center_event hroles (hrun.trans hrun') e he).2

/-! ## The forged run -/

/-- The attacker answers M1 with an M2 of public terms. The device waits for M4. -/
theorem waits_for_M4 :
    ∃ c, Run theory anything (Config.start [mainProcess]) c ∧
      ∃ PID A Authr rDev, c.procs = [TrustCenter] ++ EndDevice.waitM4 PID A Authr rDev :: [] := by
  have hx : ∀ K, Derives K (.free .x) := fun _ => Derives.free trivial
  have hknown : ∀ K, ∀ m ∈ [Bitstring.free .x, .free .x, .hash (.c2 (.free .x) (.free .x))], theory.Derives K m := by
    intro K
    simp only [List.forall_mem_cons]
    exact ⟨hx K, hx K, Derives.hash (Derives.c2 (hx K) (hx K)), fun _ h => absurd h List.not_mem_nil⟩
  have hone : 1 ∉ [0] := by simp
  unfold Config.start
  have hprocs : [mainProcess] = [] ++ .par TrustCenter deviceBranch :: [] := rfl
  refine Run.head (Step.par hprocs) ?_
  refine Run.head (Step.focus [TrustCenter] [] (.new _ _ 0) List.not_mem_nil) ?_
  refine Run.head (Step.focus [TrustCenter] [] (.event _ _) trivial) ?_
  refine Run.head (Step.focus [TrustCenter] [] (.out _ _) trivial) ?_
  refine Run.head (Step.focus [TrustCenter] []
    (.inp 3 _ ![Bitstring.free .x, Bitstring.free .x, Bitstring.hash (.c2 (.free .x) (.free .x))]) (hknown _)) ?_
  refine Run.head (Step.focus [TrustCenter] [] (.condTrue _ _ _ _ (Eqv.refl _)) trivial) ?_
  refine Run.head (Step.focus [TrustCenter] [] (.new _ _ 1) hone) ?_
  refine Run.head (Step.focus [TrustCenter] [] (.out _ _) trivial) ?_
  exact ⟨_, Relation.ReflTransGen.refl, _, _, _, _, rfl⟩

/-- The attacker answers M1 and M3 with public terms, and the device raises a key. -/
theorem forged_key :
    ∃ c, Run theory anything (Config.start [mainProcess]) c ∧ (∃ PID ks, .KeyDev PID ks ∈ c.trace) ∧ ¬Agreement c.trace := by
  have hroles : ∀ P ∈ [mainProcess], IsRole P := by
    simp [IsRole]
  obtain ⟨c, hrun, PID, A, Authr, rDev, hprocs⟩ := waits_for_M4
  have hx : Derives c.known (.free .x) := Derives.free trivial
  obtain ⟨c', hrun', ks, htrace⟩ := key_of_M4 hprocs hx hx (Derives.hash (Derives.c2 hx hx)) (Eqv.refl _)
  have hkey : .KeyDev PID ks ∈ c'.trace := by
    rw [htrace]
    exact List.mem_append_right _ List.mem_cons_self
  refine ⟨c', hrun.trans hrun', ⟨PID, ks, hkey⟩, not_agreement hkey ?_⟩
  intro e he
  exact (no_center_event hroles (hrun.trans hrun') e he).2

/-! ## Theorem 13 -/

/-- Theorem 13 (secrecy of the factors). Whatever the number of sessions, as copies of the roles or under replication, and
whatever the attacker does, it derives neither the identity nor the password nor the biometric. -/
theorem factors_secret (m n : Nat) {procs : List Proc}
    (hprocs : procs = [mainProcess] ∨ procs = [replicatedProcess] ∨ procs = copies m n) {c : Config Bitstring Fresh Event}
    (h : Run theory anything (Config.start procs) c) :
    ¬Derives c.known (.free .ID) ∧ ¬Derives c.known (.free .PW) ∧ ¬Derives c.known (.free .Bio) := by
  have hroles : ∀ P ∈ procs, IsRole P := by
    rcases hprocs with rfl | rfl | rfl
    · simp [IsRole]
    · simp [IsRole]
    · intro P hP
      rcases List.mem_append.mp hP with hcenter | hdevice
      · exact Or.inl (List.eq_of_mem_replicate hcenter)
      · exact Or.inr (Or.inl (List.eq_of_mem_replicate hdevice))
  let good : Event → Prop := fun _ => True
  have hbegin : ∀ PID, good (.AuthDevBegin PID) := fun _ => trivial
  obtain ⟨origin, hwithin⟩ := within_of_run hroles hbegin (fun _ => waitM4_keeps fun _ _ => ⟨trivial, trivial⟩) h
  refine ⟨?_, ?_, ?_⟩
  · intro hID
    exact Safe.of_derives hwithin.known hID
  · intro hPW
    exact Safe.of_derives hwithin.known hPW
  · intro hBio
    exact Safe.of_derives hwithin.known hBio

/-- In the run that the attacker forges up to M4, the factors are secret. -/
theorem factors_secret_forged :
    ∃ c, Run theory anything (Config.start [mainProcess]) c ∧ (∃ PID A Authr rDev,
      c.procs = [TrustCenter] ++ EndDevice.waitM4 PID A Authr rDev :: []) ∧
        ¬Derives c.known (.free .ID) ∧ ¬Derives c.known (.free .PW) ∧ ¬Derives c.known (.free .Bio) := by
  obtain ⟨c, hrun, hwaits⟩ := waits_for_M4
  exact ⟨c, hrun, hwaits, factors_secret 0 0 (Or.inl rfl) hrun⟩

end AuthVideo
