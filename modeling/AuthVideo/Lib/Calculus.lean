import Mathlib.Data.List.OfFn
import Mathlib.Logic.Relation

/-!
# Processes, an attacker and a network

A small process calculus over any terms with an equational theory. A process sends and receives tuples on one public channel,
creates names, compares terms and raises events. A system of processes runs against an attacker that holds the channel: it gets
all that is sent and sends what it can derive. Two processes may also run over a network that delivers every message unchanged,
which is one of the runs against the attacker.
-/

namespace Calculus

/-- What a process calculus takes from its terms. -/
structure Theory (M : Type) where
  /-- Equality of terms. -/
  eqv : M → M → Prop
  /-- The term of a name. -/
  name : ℕ → M
  /-- What can be derived from some terms. -/
  Derives : List M → M → Prop
  derives_of_mem : ∀ {K : List M} {m : M}, m ∈ K → Derives K m

/-- Processes. A statement that creates a name has a tag, and a pattern of an input a number of components. -/
inductive Process (M tag E : Type) where
  | zero
  | new (k : tag) (P : ℕ → Process M tag E)
  | out (ms : List M) (P : Process M tag E)
  | inp (n : ℕ) (P : (Fin n → M) → Process M tag E)
  | cond (m m' : M) (P Q : Process M tag E)
  | event (e : E) (P : Process M tag E)
  | par (P Q : Process M tag E)
  | repl (P : Process M tag E)

/-- What a process does in one step. -/
inductive Label (M tag E : Type) where
  | silent
  | new (k : tag) (n : ℕ)
  | send (ms : List M)
  | receive (ms : List M)
  | event (e : E)

variable {M tag E : Type}

namespace Label

/-- What the attacker knows after a step. -/
def known : Label M tag E → List M → List M
  | .send ms, K => ms ++ K
  | _, K => K

/-- The events after a step. -/
def trace : Label M tag E → List E → List E
  | .event e, t => t ++ [e]
  | _, t => t

/-- The names after a step. -/
def created : Label M tag E → List (Option tag × ℕ) → List (Option tag × ℕ)
  | .new k n, names => (some k, n) :: names
  | _, names => names

/-- The messages that wait for a process, after a step of it. -/
def inbox : Label M tag E → List (List M) → List (List M)
  | .receive _, box => box.tail
  | _, box => box

/-- The messages that wait for the other process, after a step. -/
def outbox : Label M tag E → List (List M) → List (List M)
  | .send ms, box => box ++ [ms]
  | _, box => box

end Label

/-- The steps of a process by itself. A message that does not match the pattern of an input ends the process. -/
inductive Local (T : Theory M) : Process M tag E → Label M tag E → Process M tag E → Prop where
  | new (k : tag) (P : ℕ → Process M tag E) (n : ℕ) : Local T (.new k P) (.new k n) (P n)
  | out (ms : List M) (P : Process M tag E) : Local T (.out ms P) (.send ms) P
  | inp (n : ℕ) (P : (Fin n → M) → Process M tag E) (v : Fin n → M) : Local T (.inp n P) (.receive (List.ofFn v)) (P v)
  | mismatch (n : ℕ) (P : (Fin n → M) → Process M tag E) (ms : List M) (h : ms.length ≠ n) :
    Local T (.inp n P) (.receive ms) .zero
  | condTrue (m m' : M) (P Q : Process M tag E) (h : T.eqv m m') : Local T (.cond m m' P Q) .silent P
  | condFalse (m m' : M) (P Q : Process M tag E) (h : ¬T.eqv m m') : Local T (.cond m m' P Q) .silent Q
  | event (e : E) (P : Process M tag E) : Local T (.event e P) (.event e) P

/-! ## The attacker -/

/-- A system of processes, what the attacker knows, the events so far, and the names with the statements that created them,
`none` for the attacker. -/
structure Config (M tag E : Type) where
  procs : List (Process M tag E)
  known : List M
  trace : List E
  created : List (Option tag × ℕ)

/-- A name that has not been created. -/
def Config.Fresh (c : Config M tag E) (n : ℕ) : Prop := n ∉ c.created.map Prod.snd

/-- The attacker lets a process do a step. -/
def Config.Enabled (T : Theory M) (c : Config M tag E) : Label M tag E → Prop
  | .new _ n => c.Fresh n
  | .receive ms => ∀ m ∈ ms, T.Derives c.known m
  | _ => True

/-- What a step of a process does to the rest of the system. -/
def Config.apply (c : Config M tag E) (procs : List (Process M tag E)) (a : Label M tag E) : Config M tag E :=
  ⟨procs, a.known c.known, a.trace c.trace, a.created c.created⟩

/-- The steps of a system against the attacker, which sends only what is admitted. -/
inductive Step (T : Theory M) (allow : Process M tag E → List M → Prop) : Config M tag E → Config M tag E → Prop where
  | act {c : Config M tag E} {ps qs : List (Process M tag E)} {P P' : Process M tag E} {a : Label M tag E}
    (hprocs : c.procs = ps ++ P :: qs) (hlocal : Local T P a P') (henabled : c.Enabled T a)
    (hallow : ∀ ms, a = .receive ms → allow P ms) : Step T allow c (c.apply (ps ++ P' :: qs) a)
  | par {c : Config M tag E} {ps qs : List (Process M tag E)} {P Q : Process M tag E}
    (hprocs : c.procs = ps ++ .par P Q :: qs) : Step T allow c { c with procs := ps ++ P :: Q :: qs }
  | repl {c : Config M tag E} {ps qs : List (Process M tag E)} {P : Process M tag E}
    (hprocs : c.procs = ps ++ .repl P :: qs) : Step T allow c { c with procs := ps ++ P :: .repl P :: qs }
  | create {c : Config M tag E} {n : ℕ} (hfresh : c.Fresh n) :
    Step T allow c { c with known := T.name n :: c.known, created := (none, n) :: c.created }

/-- An attacker without restrictions. -/
def anything (_ : Process M tag E) (_ : List M) : Prop := True

/-- The runs of a system against the attacker. -/
def Run (T : Theory M) (allow : Process M tag E → List M → Prop) : Config M tag E → Config M tag E → Prop :=
  Relation.ReflTransGen (Step T allow)

/-- A step of one process among others, against an attacker without restrictions. -/
theorem Step.focus {T : Theory M} (ps qs : List (Process M tag E)) {P P' : Process M tag E} {known : List M} {trace : List E}
    {created : List (Option tag × ℕ)} {a : Label M tag E} (hlocal : Local T P a P')
    (henabled : Config.Enabled T ⟨ps ++ P :: qs, known, trace, created⟩ a) :
    Step T anything ⟨ps ++ P :: qs, known, trace, created⟩ ⟨ps ++ P' :: qs, a.known known, a.trace trace, a.created created⟩ :=
  Step.act rfl hlocal henabled fun _ _ => trivial

/-- A run that begins with a given step. -/
theorem Run.head {T : Theory M} {allow : Process M tag E → List M → Prop} {c c' : Config M tag E} {Q : Config M tag E → Prop}
    (h : Step T allow c c') (hrest : ∃ c'', Run T allow c' c'' ∧ Q c'') : ∃ c'', Run T allow c c'' ∧ Q c'' := by
  obtain ⟨c'', hrun, hQ⟩ := hrest
  exact ⟨c'', Relation.ReflTransGen.head h hrun, hQ⟩

/-- A system at its start. -/
def Config.start (procs : List (Process M tag E)) : Config M tag E := ⟨procs, [], [], []⟩

/-! ## The network -/

/-- Two processes, the messages on the way to each, the events so far, and the names. -/
structure Network (M tag E : Type) where
  left : Process M tag E
  right : Process M tag E
  toLeft : List (List M)
  toRight : List (List M)
  trace : List E
  created : List (Option tag × ℕ)

/-- A process may do a step over the network: it receives the message that has been on its way for the longest time. -/
def Label.Delivered (created : List (Option tag × ℕ)) (box : List (List M)) : Label M tag E → Prop
  | .new _ n => n ∉ created.map Prod.snd
  | .receive ms => box.head? = some ms
  | _ => True

/-- The steps over a network that delivers every message unchanged. -/
inductive Deliver (T : Theory M) : Network M tag E → Network M tag E → Prop where
  | left {P P' Q : Process M tag E} {toLeft toRight : List (List M)} {trace : List E} {created : List (Option tag × ℕ)}
    {a : Label M tag E} (hlocal : Local T P a P') (h : a.Delivered created toLeft) :
    Deliver T ⟨P, Q, toLeft, toRight, trace, created⟩
      ⟨P', Q, a.inbox toLeft, a.outbox toRight, a.trace trace, a.created created⟩
  | right {P Q Q' : Process M tag E} {toLeft toRight : List (List M)} {trace : List E} {created : List (Option tag × ℕ)}
    {a : Label M tag E} (hlocal : Local T Q a Q') (h : a.Delivered created toRight) :
    Deliver T ⟨P, Q, toLeft, toRight, trace, created⟩
      ⟨P, Q', a.outbox toLeft, a.inbox toRight, a.trace trace, a.created created⟩

/-- The runs over the network. -/
def Delivery (T : Theory M) : Network M tag E → Network M tag E → Prop := Relation.ReflTransGen (Deliver T)

/-- Two processes at their start. -/
def Network.start (P Q : Process M tag E) : Network M tag E := ⟨P, Q, [], [], [], []⟩

/-! ## The rule of the closed set -/

/-- A labelling of the names agrees with the statements that created them. -/
def Config.Agrees (c : Config M tag E) (origin : ℕ → Option tag) : Prop := ∀ k n, (k, n) ∈ c.created → origin n = k

/-- No name is created twice. -/
def Config.Distinct (c : Config M tag E) : Prop := (c.created.map Prod.snd).Nodup

/-- A process sends only terms of a set, as long as it receives such terms, and raises only good events. -/
def Process.Keeps (T : Theory M) (allow : Process M tag E → List M → Prop) (origin : ℕ → Option tag) (S : M → Prop)
    (good : E → Prop) : Process M tag E → Prop
  | .zero => True
  | .new k P => ∀ n, origin n = some k → (P n).Keeps T allow origin S good
  | .out ms P => (∀ m ∈ ms, S m) ∧ P.Keeps T allow origin S good
  | .inp n P => ∀ v : Fin n → M, (∀ i, S (v i)) → allow (.inp n P) (List.ofFn v) → (P v).Keeps T allow origin S good
  | .cond m m' P Q =>
    (T.eqv m m' → P.Keeps T allow origin S good) ∧ (¬T.eqv m m' → Q.Keeps T allow origin S good)
  | .event e P => good e ∧ P.Keeps T allow origin S good
  | .par P Q => P.Keeps T allow origin S good ∧ Q.Keeps T allow origin S good
  | .repl P => P.Keeps T allow origin S good

/-- A set of terms that no derivation leaves, and that holds the names of the attacker. -/
structure Closed (T : Theory M) (origin : ℕ → Option tag) (S : M → Prop) : Prop where
  derives : ∀ {K : List M} {m : M}, (∀ k ∈ K, S k) → T.Derives K m → S m
  names : ∀ n, origin n = none → S (T.name n)

/-- The processes keep to a set of terms, the attacker knows only such terms, and the events so far are good. -/
structure Config.Within (T : Theory M) (allow : Process M tag E → List M → Prop) (origin : ℕ → Option tag) (S : M → Prop)
    (good : E → Prop) (c : Config M tag E) : Prop where
  procs : ∀ P ∈ c.procs, P.Keeps T allow origin S good
  known : ∀ m ∈ c.known, S m
  trace : ∀ e ∈ c.trace, good e

section Rules

variable {T : Theory M} {allow : Process M tag E → List M → Prop} {origin : ℕ → Option tag} {S : M → Prop} {good : E → Prop}
  {c c' : Config M tag E}

/-- One process among others. -/
theorem forall_mem_middle {α : Type} {p : α → Prop} {xs ys : List α} {x : α} :
    (∀ z ∈ xs ++ x :: ys, p z) ↔ (∀ z ∈ xs, p z) ∧ p x ∧ ∀ z ∈ ys, p z := by
  rw [List.forall_mem_append, List.forall_mem_cons]

/-- A step keeps the labelling of the state before. -/
theorem Step.agrees (h : Step T allow c c') (hagrees : c'.Agrees origin) : c.Agrees origin := by
  have hgrow : c.created ⊆ c'.created := by
    cases h with
    | @act ps qs P P' a _ _ _ _ =>
      cases a with
      | new k n => exact List.subset_cons_self _ _
      | silent => exact List.Subset.refl _
      | send ms => exact List.Subset.refl _
      | receive ms => exact List.Subset.refl _
      | event e => exact List.Subset.refl _
    | par _ => exact List.Subset.refl _
    | repl _ => exact List.Subset.refl _
    | create _ => exact List.subset_cons_self _ _
  intro k n hmem
  exact hagrees k n (hgrow hmem)

/-- A step creates no name twice. -/
theorem Step.distinct (h : Step T allow c c') (hdistinct : c.Distinct) : c'.Distinct := by
  cases h with
  | @act ps qs P P' a _ _ henabled _ =>
    cases a with
    | new k n => exact List.nodup_cons.mpr ⟨henabled, hdistinct⟩
    | silent => exact hdistinct
    | send ms => exact hdistinct
    | receive ms => exact hdistinct
    | event e => exact hdistinct
  | par _ => exact hdistinct
  | repl _ => exact hdistinct
  | create hfresh => exact List.nodup_cons.mpr ⟨hfresh, hdistinct⟩

/-- At the start there are no names. -/
theorem Config.distinct_start (procs : List (Process M tag E)) : (Config.start procs).Distinct := List.nodup_nil

/-- Names that are created once each have a labelling. -/
theorem exists_agrees (h : c.Distinct) : ∃ origin, c.Agrees origin := by
  unfold Config.Distinct at h
  unfold Config.Agrees
  revert h
  induction c.created with
  | nil => exact fun _ => ⟨fun _ => none, fun k n hmem => absurd hmem List.not_mem_nil⟩
  | cons entry created ih =>
    intro h
    rw [List.map_cons, List.nodup_cons] at h
    obtain ⟨origin, horigin⟩ := ih h.2
    refine ⟨fun n => if n = entry.2 then entry.1 else origin n, ?_⟩
    intro k n hmem
    rcases List.mem_cons.mp hmem with rfl | htail
    · exact if_pos rfl
    · have hne : n ≠ entry.2 := fun heq => h.1 (heq ▸ List.mem_map_of_mem (f := Prod.snd) htail)
      exact (if_neg hne).trans (horigin k n htail)

/-- A process that does a step keeps to the set. -/
theorem Local.keeps {P P' : Process M tag E} {a : Label M tag E} (h : Local T P a P')
    (hkeeps : P.Keeps T allow origin S good) (hnew : ∀ k n, a = .new k n → origin n = some k)
    (hreceive : ∀ ms, a = .receive ms → (∀ m ∈ ms, S m) ∧ allow P ms) :
    P'.Keeps T allow origin S good ∧ (∀ ms, a = .send ms → ∀ m ∈ ms, S m) ∧ ∀ e, a = .event e → good e := by
  cases h with
  | new k P n => exact ⟨hkeeps n (hnew k n rfl), nofun, nofun⟩
  | out ms P =>
    refine ⟨hkeeps.2, ?_, nofun⟩
    intro ms' hms
    cases hms
    exact hkeeps.1
  | inp n P v =>
    obtain ⟨hsafe, hallow⟩ := hreceive _ rfl
    refine ⟨hkeeps v (fun i => hsafe _ ?_) hallow, nofun, nofun⟩
    exact List.mem_ofFn.mpr ⟨i, rfl⟩
  | mismatch n P ms h => exact ⟨trivial, nofun, nofun⟩
  | condTrue m m' P Q h => exact ⟨hkeeps.1 h, nofun, nofun⟩
  | condFalse m m' P Q h => exact ⟨hkeeps.2 h, nofun, nofun⟩
  | event e P =>
    refine ⟨hkeeps.2, nofun, ?_⟩
    intro e' he
    cases he
    exact hkeeps.1

/-- A step stays within a closed set. -/
theorem Config.Within.step (hclosed : Closed T origin S) (hc : c.Within T allow origin S good) (h : Step T allow c c')
    (hagrees : c'.Agrees origin) : c'.Within T allow origin S good := by
  cases h with
  | @act ps qs P P' a hprocs hlocal henabled hallow =>
    obtain ⟨hps, hP, hqs⟩ := forall_mem_middle.mp (hprocs ▸ hc.procs)
    have hlocally := hlocal.keeps hP
      (by
        rintro k n rfl
        exact hagrees (some k) n List.mem_cons_self)
      (by
        rintro ms rfl
        exact ⟨fun m hm => hclosed.derives hc.known (henabled m hm), hallow ms rfl⟩)
    obtain ⟨hP', hsend, hevent⟩ := hlocally
    have hprocs' := forall_mem_middle.mpr ⟨hps, hP', hqs⟩
    cases a with
    | silent => exact ⟨hprocs', hc.known, hc.trace⟩
    | new k n => exact ⟨hprocs', hc.known, hc.trace⟩
    | receive ms => exact ⟨hprocs', hc.known, hc.trace⟩
    | send ms => exact ⟨hprocs', List.forall_mem_append.mpr ⟨hsend ms rfl, hc.known⟩, hc.trace⟩
    | event e =>
      exact ⟨hprocs', hc.known, List.forall_mem_append.mpr ⟨hc.trace, List.forall_mem_singleton.mpr (hevent e rfl)⟩⟩
  | par hprocs =>
    obtain ⟨hps, hP, hqs⟩ := forall_mem_middle.mp (hprocs ▸ hc.procs)
    exact ⟨forall_mem_middle.mpr ⟨hps, hP.1, List.forall_mem_cons.mpr ⟨hP.2, hqs⟩⟩, hc.known, hc.trace⟩
  | repl hprocs =>
    obtain ⟨hps, hP, hqs⟩ := forall_mem_middle.mp (hprocs ▸ hc.procs)
    exact ⟨forall_mem_middle.mpr ⟨hps, hP, List.forall_mem_cons.mpr ⟨hP, hqs⟩⟩, hc.known, hc.trace⟩
  | create hfresh =>
    exact ⟨hc.procs, List.forall_mem_cons.mpr ⟨hclosed.names _ (hagrees none _ List.mem_cons_self), hc.known⟩, hc.trace⟩

/-- The rule of the closed set. What holds of the start under every labelling holds of every state of a run, under every
labelling that agrees with it; and there is one. -/
theorem Run.within {good : E → Prop} {S : (ℕ → Option tag) → M → Prop}
    (hclosed : ∀ origin : ℕ → Option tag, Closed T origin (S origin))
    (hstart : ∀ origin, c.Agrees origin → c.Within T allow origin (S origin) good) (hdistinct : c.Distinct)
    (h : Run T allow c c') : ∃ origin, c'.Within T allow origin (S origin) good := by
  have hkeeps : c'.Distinct ∧ ∀ origin, c'.Agrees origin → c'.Within T allow origin (S origin) good := by
    induction h with
    | refl => exact ⟨hdistinct, hstart⟩
    | tail _ hstep ih =>
      refine ⟨hstep.distinct ih.1, ?_⟩
      intro origin hagrees
      exact (ih.2 origin (hstep.agrees hagrees)).step (hclosed origin) hstep hagrees
  obtain ⟨origin, hagrees⟩ := exists_agrees hkeeps.1
  exact ⟨origin, hkeeps.2 origin hagrees⟩

/-! ## A delivery is a run against the attacker -/

/-- A delivery that begins with a given step. -/
theorem Delivery.head {N N' : Network M tag E} {Q : Network M tag E → Prop} (h : Deliver T N N')
    (hrest : ∃ N'', Delivery T N' N'' ∧ Q N'') : ∃ N'', Delivery T N N'' ∧ Q N'' := by
  obtain ⟨N'', hrun, hQ⟩ := hrest
  exact ⟨N'', Relation.ReflTransGen.head h hrun, hQ⟩

/-- The attacker knows all that is on its way. -/
structure Network.Under (N : Network M tag E) (c : Config M tag E) : Prop where
  procs : c.procs = [N.left, N.right]
  toLeft : ∀ ms ∈ N.toLeft, ∀ m ∈ ms, m ∈ c.known
  toRight : ∀ ms ∈ N.toRight, ∀ m ∈ ms, m ∈ c.known
  trace : c.trace = N.trace
  created : c.created = N.created

/-- What waits for a process after its step waited before, and what waits for the other one waited before or is sent. -/
theorem Label.mem_boxes (a : Label M tag E) (box : List (List M)) (K : List M) (hbox : ∀ ms ∈ box, ∀ m ∈ ms, m ∈ K) :
    (∀ ms ∈ a.inbox box, ∀ m ∈ ms, m ∈ a.known K) ∧ (∀ ms ∈ a.outbox box, ∀ m ∈ ms, m ∈ a.known K) := by
  cases a with
  | silent => exact ⟨hbox, hbox⟩
  | new k n => exact ⟨hbox, hbox⟩
  | event e => exact ⟨hbox, hbox⟩
  | receive ms => exact ⟨fun ms' hms' => hbox ms' (List.mem_of_mem_tail hms'), hbox⟩
  | send ms =>
    have hold : ∀ ms' ∈ box, ∀ m ∈ ms', m ∈ ms ++ K := fun ms' hms' m hm => List.mem_append_right _ (hbox ms' hms' m hm)
    refine ⟨hold, ?_⟩
    intro ms' hms' m hm
    rcases List.mem_append.mp hms' with hbefore | hnew
    · exact hold ms' hbefore m hm
    · rw [List.mem_singleton.mp hnew] at hm
      exact List.mem_append_left _ hm

/-- A label that the network admits is admitted by the attacker. -/
theorem Label.Delivered.enabled {a : Label M tag E} {box : List (List M)} {created : List (Option tag × ℕ)}
    (h : a.Delivered created box) (hcreated : c.created = created)
    (hbox : ∀ ms ∈ box, ∀ m ∈ ms, m ∈ c.known) : c.Enabled T a := by
  subst hcreated
  cases a with
  | new k n => exact h
  | receive ms => exact fun m hm => T.derives_of_mem (hbox ms (List.mem_of_mem_head? h) m hm)
  | silent => trivial
  | send ms => trivial
  | event e => trivial

/-- One step over the network is a step against the attacker. -/
theorem Network.Under.step {N N' : Network M tag E} (hunder : N.Under c) (h : Deliver T N N') :
    ∃ c', Step T anything c c' ∧ N'.Under c' := by
  cases h with
  | @left P P' Q toLeft toRight trace created a hlocal hdelivered =>
    have henabled := hdelivered.enabled (T := T) hunder.created hunder.toLeft
    have hprocs : c.procs = [] ++ P :: [Q] := hunder.procs
    refine ⟨_, Step.act hprocs hlocal henabled fun _ _ => trivial, rfl, ?_, ?_, ?_, ?_⟩
    · exact (a.mem_boxes toLeft c.known hunder.toLeft).1
    · exact (a.mem_boxes toRight c.known hunder.toRight).2
    · exact congrArg a.trace hunder.trace
    · exact congrArg a.created hunder.created
  | @right P Q Q' toLeft toRight trace created a hlocal hdelivered =>
    have henabled := hdelivered.enabled (T := T) hunder.created hunder.toRight
    have hprocs : c.procs = [P] ++ Q :: [] := hunder.procs
    refine ⟨_, Step.act hprocs hlocal henabled fun _ _ => trivial, rfl, ?_, ?_, ?_, ?_⟩
    · exact (a.mem_boxes toLeft c.known hunder.toLeft).2
    · exact (a.mem_boxes toRight c.known hunder.toRight).1
    · exact congrArg a.trace hunder.trace
    · exact congrArg a.created hunder.created

/-- A run over the network is a run against the attacker. -/
theorem Delivery.run {N N' : Network M tag E} (hunder : N.Under c) (h : Delivery T N N') :
    ∃ c', Run T anything c c' ∧ N'.Under c' := by
  induction h with
  | refl => exact ⟨c, Relation.ReflTransGen.refl, hunder⟩
  | tail _ hstep ih =>
    obtain ⟨c', hrun, hunder'⟩ := ih
    obtain ⟨c'', hstep', hunder''⟩ := hunder'.step hstep
    exact ⟨c'', hrun.tail hstep', hunder''⟩

end Rules

end Calculus
