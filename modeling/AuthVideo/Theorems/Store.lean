import AuthVideo.Lemmas.Python
import AuthVideo.Server

/-!
# Theorem 28: the identity store

`add_person` appends a record whether or not the name has one, and the other functions look at the first record of a name or at
all of them. The store is a map on names in which an addition to a present name is lost until the name is deleted.
-/

namespace AuthVideo

/-! ## Sequences of calls -/

/-- A call of one of the functions that write the store. -/
inductive StoreCall where
  | add (pid A Auth : Text)
  | update (name : Text) (newEmail newPhone : Option Text)
  | delete (name : Text)
  deriving DecidableEq

/-- The name of the call. -/
def StoreCall.name : StoreCall → Text
  | .add pid _ _ => pid
  | .update name _ _ => name
  | .delete name => name

/-- The call on the file. -/
def StoreCall.run : StoreCall → JsonFile → Except PyError JsonFile
  | .add pid A Auth => addPerson pid A Auth
  | .update name newEmail newPhone => updatePerson name newEmail newPhone
  | .delete name => deletePerson name

/-- The file after a sequence of calls from the empty store. -/
def storeAfter (calls : List StoreCall) : Except PyError JsonFile :=
  calls.foldlM (fun file call => call.run file) (initializeJsonFile none)

/-! ## The map -/

/-- What becomes of an addition to a present name. -/
inductive Repeated where
  | counts
  | isLost
  deriving DecidableEq

/-- What a call leaves of the values of a name. -/
def StoreCall.give (repeated : Repeated) (name : Text) (call : StoreCall) (held : Option (Text × Text)) : Option (Text × Text) :=
  if call.name = name then
    match call with
    | .add _ A Auth => if repeated = .counts then some (A, Auth) else held.or (some (A, Auth))
    | .update _ newEmail newPhone => held.map fun v => (overwrite newEmail v.1, overwrite newPhone v.2)
    | .delete _ => none
  else held

/-- A call of another name leaves the values as they are. -/
theorem StoreCall.give_of_ne {repeated : Repeated} {name : Text} {call : StoreCall} (hname : call.name ≠ name)
    (values : Option (Text × Text)) : call.give repeated name values = values := if_neg hname

/-- The values of a name after a sequence of calls. -/
def valuesAfter (repeated : Repeated) (name : Text) (calls : List StoreCall) : Option (Text × Text) :=
  calls.foldl (fun held call => call.give repeated name held) none

/-- The two texts of a name as `get_person_by_name` converts them. -/
def Ctx.convert (Γ : Ctx) : Option (Text × Text) → Except PyError (Option (Int × Int))
  | none => .ok none
  | some (A, Auth) => do
    let A ← Γ.int A
    let Auth ← Γ.int Auth
    return some (A, Auth)

/-- The values that a list of records holds for a name. -/
def held (people : List Person) (name : Text) : Option (Text × Text) :=
  (Keyed.lookup Person.name name people).map fun person => (person.A, person.Auth)

theorem Ctx.getPersonByName_eq (Γ : Ctx) (name : Text) (people : List Person) :
    Γ.getPersonByName name (some people) = Γ.convert (held people name) := by
  rw [held, Keyed.lookup]
  cases hfind : people.find? fun person => person.name = name with
  | none => simp only [Ctx.getPersonByName, hfind, Option.map_none, Ctx.convert]
  | some person => simp only [Ctx.getPersonByName, hfind, Option.map_some, Ctx.convert]

/-! ## Refinement -/

/-- A call on a file returns, and changes what the file holds for a name as the map says. -/
theorem StoreCall.run_spec (call : StoreCall) (people : List Person) :
    ∃ people', call.run (some people) = .ok (some people') ∧
      ∀ name, held people' name = call.give .isLost name (held people name) := by
  cases call with
  | add pid A Auth =>
    refine ⟨_, rfl, ?_⟩
    intro name
    rw [held, Keyed.lookup_concat, StoreCall.give, StoreCall.name, held]
    by_cases hname : pid = name
    · cases Keyed.lookup Person.name name people <;> simp [hname]
    · simp [hname]
  | update pid newEmail newPhone =>
    refine ⟨_, rfl, ?_⟩
    intro name
    rw [held, Keyed.lookup_modifyFirst (by intro _; rfl), StoreCall.give, StoreCall.name, held]
    by_cases hname : pid = name
    · cases Keyed.lookup Person.name name people <;> simp [hname]
    · simp [hname]
  | delete pid =>
    refine ⟨_, rfl, ?_⟩
    intro name
    rw [held, Keyed.lookup_erase, StoreCall.give, StoreCall.name, held]
    by_cases hname : pid = name
    · simp [hname]
    · simp [hname]

@[simp] theorem valuesAfter_nil (repeated : Repeated) (name : Text) : valuesAfter repeated name [] = none := rfl

theorem valuesAfter_concat (repeated : Repeated) (name : Text) (calls : List StoreCall) (call : StoreCall) :
    valuesAfter repeated name (calls ++ [call]) = call.give repeated name (valuesAfter repeated name calls) := by
  simp [valuesAfter]

/-- A sequence of calls returns, and the file holds what the map has. -/
theorem storeAfter_spec (calls : List StoreCall) :
    ∃ people, storeAfter calls = .ok (some people) ∧ ∀ name, held people name = valuesAfter .isLost name calls := by
  induction calls using List.reverseRecOn with
  | nil => exact ⟨[], rfl, fun _ => rfl⟩
  | append_singleton calls call ih =>
    obtain ⟨people, hrun, hheld⟩ := ih
    obtain ⟨people', hcall, hgive⟩ := call.run_spec people
    refine ⟨people', ?_, ?_⟩
    · rw [storeAfter] at hrun ⊢
      rw [List.foldlM_append, hrun, ok_bind, List.foldlM_cons, hcall]
      rfl
    · intro name
      rw [hgive, hheld, valuesAfter_concat]

/-! ## The history of a name -/

/-- The name was never added, or deleted after its last addition. -/
def Absent (name : Text) (calls : List StoreCall) : Prop :=
  ∀ earlier A Auth later, calls = earlier ++ .add name A Auth :: later → .delete name ∈ later

/-- No addition of the name finds it present. -/
def NeverRepeated (name : Text) (calls : List StoreCall) : Prop :=
  ∀ earlier A Auth later, calls = earlier ++ .add name A Auth :: later → Absent name earlier

section History

variable {name : Text} {calls : List StoreCall} {call : StoreCall}

/-- A call before the last addition, and the last call. -/
theorem concat_eq_split {earlier later : List StoreCall} {A Auth : Text}
    (h : calls ++ [call] = earlier ++ .add name A Auth :: later) :
    (later = [] ∧ calls = earlier ∧ call = .add name A Auth) ∨
      ∃ rest, later = rest ++ [call] ∧ calls = earlier ++ .add name A Auth :: rest := by
  rcases List.eq_nil_or_concat later with rfl | ⟨rest, last, rfl⟩
  · obtain ⟨hcalls, hcall⟩ := List.append_inj' h rfl
    exact .inl ⟨rfl, hcalls, List.singleton_inj.mp hcall⟩
  · rw [List.concat_eq_append, ← List.cons_append, ← List.append_assoc] at h
    obtain ⟨hcalls, hcall⟩ := List.append_inj' h rfl
    obtain rfl := List.singleton_inj.mp hcall
    exact .inr ⟨rest, List.concat_eq_append, hcalls⟩

/-- The last call deletes the name, or leaves it absent. -/
theorem absent_concat :
    Absent name (calls ++ [call]) ↔ call = .delete name ∨ (Absent name calls ∧ ∀ A Auth, call ≠ .add name A Auth) := by
  constructor
  · intro habsent
    by_cases hdelete : call = .delete name
    · exact .inl hdelete
    · refine .inr ⟨?_, ?_⟩
      · rintro earlier A Auth later rfl
        have hmem := habsent earlier A Auth (later ++ [call]) (by simp)
        rcases List.mem_append.mp hmem with hlater | hlast
        · exact hlater
        · exact absurd (List.mem_singleton.mp hlast).symm hdelete
      · rintro A Auth rfl
        exact absurd (habsent calls A Auth [] rfl) List.not_mem_nil
  · intro hlast earlier A Auth later hsplit
    rcases concat_eq_split hsplit with ⟨-, -, hadd⟩ | ⟨rest, rfl, hcalls⟩
    · rcases hlast with hdelete | ⟨-, hnot⟩
      · rw [hdelete] at hadd
        cases hadd
      · exact absurd hadd (hnot A Auth)
    · rcases hlast with hdelete | ⟨habsent, -⟩
      · exact List.mem_append_right _ (List.mem_singleton.mpr hdelete.symm)
      · exact List.mem_append_left _ (habsent earlier A Auth rest hcalls)

theorem StoreCall.give_eq_none_iff {repeated : Repeated} {values : Option (Text × Text)} :
    call.give repeated name values = none ↔ call = .delete name ∨ (values = none ∧ ∀ A Auth, call ≠ .add name A Auth) := by
  unfold StoreCall.give StoreCall.name
  cases call with
  | add pid A Auth =>
    by_cases hname : pid = name
    · cases repeated <;> cases values <;> simp [hname]
    · simp [hname]
  | update pid newEmail newPhone =>
    by_cases hname : pid = name <;> simp [hname]
  | delete pid =>
    by_cases hname : pid = name <;> simp [hname]

/-- The map has nothing for a name exactly when the name is absent. -/
theorem valuesAfter_eq_none_iff {repeated : Repeated} : valuesAfter repeated name calls = none ↔ Absent name calls := by
  induction calls using List.reverseRecOn with
  | nil => simp [Absent]
  | append_singleton calls call ih => rw [valuesAfter_concat, StoreCall.give_eq_none_iff, absent_concat, ih]

/-- The calls of other names leave nothing behind. -/
theorem valuesAfter_filter (repeated : Repeated) (name : Text) (calls : List StoreCall) :
    valuesAfter repeated name (calls.filter fun call => call.name = name) = valuesAfter repeated name calls := by
  induction calls using List.reverseRecOn with
  | nil => rfl
  | append_singleton calls call ih =>
    rw [List.filter_append, valuesAfter_concat]
    by_cases hname : call.name = name
    · rw [List.filter_singleton, decide_eq_true hname, cond_true, valuesAfter_concat, ih]
    · rw [List.filter_singleton, decide_eq_false hname, cond_false, List.append_nil, ih, StoreCall.give_of_ne hname]

/-- Where no addition finds the name present, it does not matter what would become of one. -/
theorem NeverRepeated.valuesAfter_eq (h : NeverRepeated name calls) :
    valuesAfter .isLost name calls = valuesAfter .counts name calls := by
  induction calls using List.reverseRecOn with
  | nil => rfl
  | append_singleton calls call ih =>
    have hcalls : NeverRepeated name calls := by
      rintro earlier A Auth later rfl
      exact h earlier A Auth (later ++ [call]) (by simp)
    rw [valuesAfter_concat, valuesAfter_concat, ih hcalls]
    cases call with
    | add pid A Auth =>
      by_cases hname : pid = name
      · subst hname
        have habsent := h calls A Auth [] rfl
        rw [valuesAfter_eq_none_iff.mpr habsent]
        rfl
      · simp [StoreCall.give, StoreCall.name, hname]
    | update pid newEmail newPhone => rfl
    | delete pid => rfl

end History

/-- Texts never convert to `None`. -/
theorem Ctx.convert_eq_none_iff {Γ : Ctx} {values : Option (Text × Text)} : Γ.convert values = .ok none ↔ values = none := by
  cases values with
  | none => simp [Ctx.convert]
  | some v => simp [Ctx.convert, bind_eq_ok, pure_eq_ok]

/-- Theorem 28 (the store is a map). After every sequence of calls from the empty store, the values of a name are those of its first
addition since its last deletion, as later updates changed them; there are none exactly when the name is absent; and the calls of
other names do not count. Where no addition finds the name present, they are the values given last. -/
theorem store_is_map (Γ : Ctx) (calls : List StoreCall) (name : Text) :
    (∃ file, storeAfter calls = .ok file ∧ Γ.getPersonByName name file = Γ.convert (valuesAfter .isLost name calls) ∧
        (Γ.getPersonByName name file = .ok none ↔ Absent name calls)) ∧
      valuesAfter .isLost name (calls.filter fun call => call.name = name) = valuesAfter .isLost name calls ∧
      (NeverRepeated name calls → valuesAfter .isLost name calls = valuesAfter .counts name calls) := by
  obtain ⟨people, hrun, hheld⟩ := storeAfter_spec calls
  have hget : Γ.getPersonByName name (some people) = Γ.convert (valuesAfter .isLost name calls) := by
    rw [Ctx.getPersonByName_eq, hheld]
  refine ⟨⟨some people, hrun, hget, ?_⟩, valuesAfter_filter .isLost name calls, NeverRepeated.valuesAfter_eq⟩
  rw [hget, Ctx.convert_eq_none_iff, valuesAfter_eq_none_iff]

/-- The second addition of a name is not read. -/
theorem repeated_addition_lost : ¬∀ (Γ : Ctx) (calls : List StoreCall) (name : Text),
    ∃ file, storeAfter calls = .ok file ∧ Γ.getPersonByName name file = Γ.convert (valuesAfter .counts name calls) := by
  intro h
  obtain ⟨file, hrun, hget⟩ := h ⟨fun _ => 0, fun _ => by decide, 0⟩
    [.add ['n'] ['1'] ['1'], .add ['n'] ['2'] ['2']] ['n']
  cases hrun
  revert hget
  decide

end AuthVideo
