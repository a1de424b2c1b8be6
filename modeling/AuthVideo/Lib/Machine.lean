import Mathlib.Data.List.Basic

/-!
# Machines that may raise

A machine takes one input after the other; each step gives an output and the next state, or raises and ends the run. The log
of a run is the list of its inputs with their outputs.
-/

namespace Machine

variable {σ ι ο ε : Type*}

/-- The log of a run, and the state or the error that it ends in. -/
def run (step : ι → σ → Except ε (ο × σ)) : List ι → σ → List (ι × ο) × Except ε σ
  | [], s => ([], .ok s)
  | i :: is, s =>
    match step i s with
    | .error e => ([], .error e)
    | .ok (o, s') => ((i, o) :: (run step is s').1, (run step is s').2)

/-- The inputs of a run without those whose step is to be left out. -/
def kept (step : ι → σ → Except ε (ο × σ)) (skip : ι → ο → Bool) : List ι → σ → List ι
  | [], _ => []
  | i :: is, s =>
    match step i s with
    | .error _ => i :: is
    | .ok (o, s') => if skip i o then kept step skip is s' else i :: kept step skip is s'

section Rules

variable {step : ι → σ → Except ε (ο × σ)}

@[simp] theorem run_nil (s : σ) : run step [] s = ([], .ok s) := rfl

/-- A first step that returns. -/
theorem run_cons_ok {i : ι} {s s' : σ} {o : ο} (h : step i s = .ok (o, s')) (is : List ι) :
    run step (i :: is) s = ((i, o) :: (run step is s').1, (run step is s').2) := by
  simp only [run, h]

/-- A first step that raises. -/
theorem run_cons_error {i : ι} {s : σ} {e : ε} (h : step i s = .error e) (is : List ι) :
    run step (i :: is) s = ([], .error e) := by
  simp only [run, h]

/-- A run over two lists of inputs: the second part runs where the first one ends, unless that raised. -/
theorem run_append (is js : List ι) (s : σ) :
    run step (is ++ js) s =
      match run step is s with
      | (log, .error e) => (log, .error e)
      | (log, .ok s') => (log ++ (run step js s').1, (run step js s').2) := by
  induction is generalizing s with
  | nil => rfl
  | cons i is ih =>
    cases hstep : step i s with
    | error e => rw [List.cons_append, run_cons_error hstep, run_cons_error hstep]
    | ok result =>
      obtain ⟨o, s'⟩ := result
      rw [List.cons_append, run_cons_ok hstep, run_cons_ok hstep, ih s']
      rcases run step is s' with ⟨log, e | s''⟩ <;> rfl

/-- A run whose first part returns. -/
theorem run_append_of_ok {is : List ι} {s s' : σ} (h : (run step is s).2 = .ok s') (js : List ι) :
    run step (is ++ js) s = ((run step is s).1 ++ (run step js s').1, (run step js s').2) := by
  rw [run_append]
  rcases hrun : run step is s with ⟨log, result⟩
  rw [hrun] at h
  obtain rfl : result = .ok s' := h
  rfl

/-- A run over an input and more that returns takes the first step. -/
theorem ok_of_run_cons {i : ι} {is : List ι} {s s' : σ} (h : (run step (i :: is) s).2 = .ok s') :
    ∃ o s₁, step i s = .ok (o, s₁) ∧ (run step is s₁).2 = .ok s' := by
  cases hstep : step i s with
  | error e =>
    rw [run_cons_error hstep] at h
    cases h
  | ok result =>
    obtain ⟨o, s₁⟩ := result
    rw [run_cons_ok hstep] at h
    exact ⟨o, s₁, rfl, h⟩

/-- A run over two lists that returns runs over the second one where the first one ends. -/
theorem ok_of_run_append {is js : List ι} {s s' : σ} (h : (run step (is ++ js) s).2 = .ok s') :
    ∃ s₁, (run step is s).2 = .ok s₁ ∧ (run step js s₁).2 = .ok s' := by
  rw [run_append] at h
  rcases hrun : run step is s with ⟨log, e | s₁⟩ <;> rw [hrun] at h
  · cases h
  · exact ⟨s₁, rfl, h⟩

/-- The inputs of the log are those at the front of the list. -/
theorem map_fst_run_prefix (step : ι → σ → Except ε (ο × σ)) (is : List ι) (s : σ) : (run step is s).1.map Prod.fst <+: is := by
  induction is generalizing s with
  | nil => exact List.prefix_refl _
  | cons i is ih =>
    cases hstep : step i s with
    | error e =>
      rw [run_cons_error hstep]
      exact List.nil_prefix
    | ok result =>
      obtain ⟨o, s'⟩ := result
      rw [run_cons_ok hstep]
      exact List.cons_prefix_cons.mpr ⟨rfl, ih s'⟩

/-- The invariant rule. What the steps of a run keep holds where the run ends. -/
theorem run_invariant (P : σ → Prop) {is : List ι} {s s' : σ}
    (hstep : ∀ i ∈ is, ∀ s o s', P s → step i s = .ok (o, s') → P s') (hs : P s) (h : (run step is s).2 = .ok s') : P s' := by
  induction is generalizing s with
  | nil =>
    cases h
    exact hs
  | cons i is ih =>
    rw [List.forall_mem_cons] at hstep
    cases hi : step i s with
    | error e =>
      rw [run_cons_error hi] at h
      cases h
    | ok result =>
      obtain ⟨o, s₁⟩ := result
      rw [run_cons_ok hi] at h
      exact ih hstep.2 (hstep.1 s o s₁ hs hi) h

/-- The invariant rule where a step may count on how the run came to it. -/
theorem run_invariant_of_prefix (P : σ → Prop) {is : List ι} {s s' : σ}
    (hstep : ∀ earlier i later s₁ o s₂, is = earlier ++ i :: later → (run step earlier s).2 = .ok s₁ → P s₁ →
      step i s₁ = .ok (o, s₂) → P s₂) (hs : P s) (h : (run step is s).2 = .ok s') : P s' := by
  induction is generalizing s with
  | nil =>
    cases h
    exact hs
  | cons i is ih =>
    cases hi : step i s with
    | error e =>
      rw [run_cons_error hi] at h
      cases h
    | ok result =>
      obtain ⟨o, s₁⟩ := result
      rw [run_cons_ok hi] at h
      refine ih (fun earlier j later s₂ o' s₃ hsplit hrun => ?_) (hstep [] i is s o s₁ rfl rfl hs hi) h
      refine hstep (i :: earlier) j later s₂ o' s₃ (by rw [hsplit, List.cons_append]) ?_
      rw [run_cons_ok hi]
      exact hrun

/-- A run that raises does so in a step, in the state where the earlier part of it ends. -/
theorem of_run_error {is : List ι} {s : σ} {e : ε} (h : (run step is s).2 = .error e) :
    ∃ earlier i later s', is = earlier ++ i :: later ∧ (run step earlier s).2 = .ok s' ∧ step i s' = .error e := by
  induction is generalizing s with
  | nil => cases h
  | cons i is ih =>
    cases hi : step i s with
    | error e' =>
      rw [run_cons_error hi] at h
      cases h
      exact ⟨[], i, is, s, rfl, rfl, hi⟩
    | ok result =>
      obtain ⟨o, s'⟩ := result
      rw [run_cons_ok hi] at h
      obtain ⟨earlier, j, later, s₁, rfl, hrun, herror⟩ := ih h
      exact ⟨i :: earlier, j, later, s₁, rfl, by rw [run_cons_ok hi]; exact hrun, herror⟩

/-- Every entry of the log was made by a step, in the state where the earlier part of the run ends. -/
theorem mem_run {is : List ι} {s : σ} {entry : ι × ο} (h : entry ∈ (run step is s).1) :
    ∃ earlier later s₁ s₂, is = earlier ++ entry.1 :: later ∧ (run step earlier s).2 = .ok s₁ ∧
      step entry.1 s₁ = .ok (entry.2, s₂) := by
  induction is generalizing s with
  | nil => cases h
  | cons i is ih =>
    cases hi : step i s with
    | error e =>
      rw [run_cons_error hi] at h
      cases h
    | ok result =>
      obtain ⟨o, s'⟩ := result
      rw [run_cons_ok hi] at h
      rcases List.mem_cons.mp h with rfl | hmem
      · exact ⟨[], is, s, s', rfl, rfl, hi⟩
      · obtain ⟨earlier, later, s₁, s₂, rfl, hrun, hok⟩ := ih hmem
        exact ⟨i :: earlier, later, s₁, s₂, rfl, by rw [run_cons_ok hi]; exact hrun, hok⟩

/-- The history rule. A relation between the log so far and the state that every step keeps holds where any entry of the log
was made. -/
theorem run_history (Hist : List (ι × ο) → σ → Prop)
    (hstep : ∀ log s i o s', Hist log s → step i s = .ok (o, s') → Hist (log ++ [(i, o)]) s')
    {is : List ι} {s : σ} {past earlier later : List (ι × ο)} {i : ι} {o : ο} (hs : Hist past s)
    (hlog : (run step is s).1 = earlier ++ (i, o) :: later) :
    ∃ s₁ s₂, Hist (past ++ earlier) s₁ ∧ step i s₁ = .ok (o, s₂) := by
  induction is generalizing s past earlier with
  | nil => simp at hlog
  | cons j is ih =>
    cases hj : step j s with
    | error e =>
      rw [run_cons_error hj] at hlog
      simp at hlog
    | ok result =>
      obtain ⟨o', s'⟩ := result
      rw [run_cons_ok hj] at hlog
      cases earlier with
      | nil =>
        simp only [List.nil_append, List.cons.injEq, Prod.mk.injEq] at hlog
        obtain ⟨⟨rfl, rfl⟩, -⟩ := hlog
        exact ⟨s, s', by rwa [List.append_nil], hj⟩
      | cons entry earlier =>
        simp only [List.cons_append, List.cons.injEq] at hlog
        obtain ⟨rfl, hlog⟩ := hlog
        obtain ⟨s₁, s₂, hhist, hok⟩ := ih (hstep past s j o' s' hs hj) hlog
        exact ⟨s₁, s₂, by simpa using hhist, hok⟩

/-- The log rule. A relation between the log so far and the state that every step keeps holds of the whole log where the run
ends, also where the next step raises. -/
theorem run_log (Hist : List (ι × ο) → σ → Prop)
    (hstep : ∀ log s i o s', Hist log s → step i s = .ok (o, s') → Hist (log ++ [(i, o)]) s')
    {past : List (ι × ο)} {s : σ} (hs : Hist past s) (is : List ι) :
    match run step is s with
    | (log, .ok s') => Hist (past ++ log) s'
    | (log, .error e) => ∃ i s', Hist (past ++ log) s' ∧ step i s' = .error e := by
  induction is generalizing past s with
  | nil => simpa using hs
  | cons i is ih =>
    cases hi : step i s with
    | error e =>
      rw [run_cons_error hi]
      exact ⟨i, s, by simpa using hs, hi⟩
    | ok result =>
      obtain ⟨o, s₁⟩ := result
      have htail := ih (hstep past s i o s₁ hs hi)
      rw [run_cons_ok hi]
      rcases hrun : run step is s₁ with ⟨log, e | s'⟩ <;> rw [hrun] at htail <;> simpa using htail

end Rules

end Machine
