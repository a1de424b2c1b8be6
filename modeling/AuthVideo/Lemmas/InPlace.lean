import AuthVideo.Board.Strings
import AuthVideo.Lemmas.Texts

/-!
# The division in place

From its second pass on the loop of `auth_pre` divides the text in `next` and writes the quotient over it. What it writes stands no later
than what it reads, so every character is read before it is overwritten, and the buffers give what the loop on texts gives.
-/

namespace AuthVideo

/-! ## Texts in the buffers -/

/-- The buffer that a pointer points into. -/
def DivBuffers.of (b : DivBuffers) : CharPtr → Bytes
  | .temp _ => b.temp
  | .next _ => b.next

/-- A text with the zero that ends it stands at a pointer. -/
def StringAt (b : DivBuffers) (p : CharPtr) (t : Bytes) : Prop := ∃ rest, (b.of p).drop p.index = t ++ 0 :: rest

variable {b : DivBuffers} {p : CharPtr} {c : UInt8} {t : Bytes}

theorem deref_eq (b : DivBuffers) (p : CharPtr) : b.deref p = (b.of p)[p.index]? := by
  cases p <;> rfl

/-- At the end of a text the loops read its zero. -/
theorem StringAt.deref_nil (h : StringAt b p []) : b.deref p = some 0 := by
  obtain ⟨rest, hrest⟩ := h
  rw [deref_eq, ← List.head?_drop, hrest]
  rfl

/-- Before it they read its first character. -/
theorem StringAt.deref_cons (h : StringAt b p (c :: t)) : b.deref p = some c := by
  obtain ⟨rest, hrest⟩ := h
  rw [deref_eq, ← List.head?_drop, hrest]
  rfl

/-- The rest of the text stands behind. -/
theorem StringAt.succ (h : StringAt b p (c :: t)) : StringAt b p.succ t := by
  obtain ⟨rest, hrest⟩ := h
  refine ⟨rest, ?_⟩
  cases p with
  | temp i =>
    change b.temp.drop i = _ at hrest
    change b.temp.drop (i + 1) = _
    rw [← List.drop_drop, hrest]
    rfl
  | next i =>
    change b.next.drop i = _ at hrest
    change b.next.drop (i + 1) = _
    rw [← List.drop_drop, hrest]
    rfl

/-- A write before the pointer leaves the text. -/
theorem StringAt.set (h : StringAt b p t) {outPtr : Nat} (hbefore : ∀ i, p = .next i → outPtr < i) (v : UInt8) :
    StringAt { b with next := b.next.set outPtr v } p t := by
  obtain ⟨rest, hrest⟩ := h
  refine ⟨rest, ?_⟩
  cases p with
  | temp i => exact hrest
  | next i =>
    change (b.next.set outPtr v).drop i = _
    rw [List.drop_set_of_lt (hbefore i rfl)]
    exact hrest

/-! ## A pass -/

theorem length_divByteLoop (carry : Int) (t : Bytes) : (divByteLoop carry t).1.length = t.length := by
  induction t generalizing carry with
  | nil => rfl
  | cons c t ih => exact congrArg (· + 1) (ih _)

/-- A pass over a text writes its quotient from `out_ptr` on. It does not write behind what it reads. -/
theorem divideLoop_eq (ht : ∀ c ∈ t, c ≠ 0) (hp : StringAt b p t) {outPtr : Nat} (hbehind : ∀ i, p = .next i → outPtr ≤ i)
    (hroom : outPtr + t.length < b.next.length) (hsize : b.next.length ≤ 255) {fuel : Nat} (hfuel : t.length < fuel)
    (carry : Int) :
    divideLoop fuel b p outPtr carry =
      some ({ b with next := b.next.take outPtr ++ (divByteLoop carry t).1 ++ b.next.drop (outPtr + t.length) },
        outPtr + t.length, (divByteLoop carry t).2) := by
  induction t generalizing b p outPtr fuel carry with
  | nil =>
    obtain ⟨fuel, rfl⟩ := Nat.exists_eq_succ_of_ne_zero (Nat.ne_of_gt hfuel)
    simp [divideLoop, hp.deref_nil, divByteLoop]
  | cons c t ih =>
    rw [List.forall_mem_cons] at ht
    rw [List.length_cons] at hroom hfuel
    obtain ⟨fuel, rfl⟩ := Nat.exists_eq_succ_of_ne_zero (by omega : fuel ≠ 0)
    have hplace : outPtr < b.next.length := by omega
    set v : UInt8 := .ofInt (48 + (carry * 10 + ((c.toNat : Int) - 48)).tdiv 256) with hv
    set carry' := (carry * 10 + ((c.toNat : Int) - 48)).tmod 256 with hcarry'
    have hsucc : ∀ i, p.succ = .next i → outPtr + 1 ≤ i := by
      intro i hi
      cases p with
      | temp j => cases hi
      | next j =>
        cases hi
        have := hbehind j rfl
        omega
    have hrest : StringAt { b with next := b.next.set outPtr v } p.succ t := hp.succ.set (fun i hi => hsucc i hi) v
    have hpass := ih ht.2 hrest hsucc (by rw [List.length_set]; omega) (by rw [List.length_set]; exact hsize)
      (Nat.lt_of_succ_lt_succ hfuel) carry'
    have htake : (b.next.set outPtr v).take (outPtr + 1) = b.next.take outPtr ++ [v] := by
      rw [List.take_succ_eq_append_getElem (by rw [List.length_set]; exact hplace), List.take_set_of_le (Nat.le_refl _),
        List.getElem_set_self]
    have hdrop : (b.next.set outPtr v).drop (outPtr + 1 + t.length) = b.next.drop (outPtr + (t.length + 1)) := by
      rw [List.drop_set_of_lt (by omega)]
      congr 1
      omega
    have hturn : divideLoop (fuel + 1) b p outPtr carry =
        divideLoop fuel { b with next := b.next.set outPtr v } p.succ (outPtr + 1) carry' := by
      rw [divideLoop, hp.deref_cons]
      dsimp only
      rw [if_neg ht.1, if_pos (by omega), if_pos hplace]
    have hloop : divByteLoop carry (c :: t) = (v :: (divByteLoop carry' t).1, (divByteLoop carry' t).2) := rfl
    rw [hturn, hpass, hloop]
    dsimp only
    rw [htake, hdrop, List.length_cons, List.append_assoc (b.next.take outPtr), List.singleton_append, Nat.add_right_comm,
      Nat.add_assoc outPtr]

/-- The zeros in front of a text are passed over. -/
theorem skipZeros_eq (hp : StringAt b p t) {fuel : Nat} (hfuel : t.length < fuel) :
    ∃ p', skipZeros fuel b p = some p' ∧ StringAt b p' (t.dropWhile (· = 48)) := by
  induction t generalizing p fuel with
  | nil =>
    obtain ⟨fuel, rfl⟩ := Nat.exists_eq_succ_of_ne_zero (Nat.ne_of_gt hfuel)
    refine ⟨p, ?_, hp⟩
    rw [skipZeros, hp.deref_nil]
    rfl
  | cons c t ih =>
    rw [List.length_cons] at hfuel
    obtain ⟨fuel, rfl⟩ := Nat.exists_eq_succ_of_ne_zero (by omega : fuel ≠ 0)
    by_cases hc : c = 48
    · obtain ⟨p', hp', hstring⟩ := ih hp.succ (Nat.lt_of_succ_lt_succ hfuel)
      refine ⟨p', ?_, ?_⟩
      · rw [skipZeros, hp.deref_cons]
        dsimp only
        rw [if_pos hc, hp']
      · rw [List.dropWhile_cons_of_pos (by simpa using hc)]
        exact hstring
    · refine ⟨p, ?_, ?_⟩
      · rw [skipZeros, hp.deref_cons]
        dsimp only
        rw [if_neg hc]
      · rw [List.dropWhile_cons_of_neg (by simpa using hc)]
        exact hp

/-! ## The loop over `ptr` -/

/-- The buffers hold the text at `ptr` and the bytes that are stored. -/
structure Holds (s : DivState) (r : Bytes × Bytes) : Prop where
  string : StringAt s.buffers s.ptr r.1
  numeral : IsNumeral r.1
  length : r.1.length < 128
  size : s.buffers.next.length = 128
  stored : s.bigIntBytes = r.2

/-- The characters of a numeral are not the zero that ends a text. -/
theorem IsNumeral.ne_zero (h : IsNumeral t) : ∀ c ∈ t, c ≠ 0 := by
  rintro c hc rfl
  have hrange := (h 0 hc).1
  exact absurd hrange (by decide)

/-- What a pass over a numeral writes is a numeral. -/
theorem isNumeral_divByteLoop (h : IsNumeral t) : IsNumeral (divByteLoop 0 t).1 := by
  have hpass := divByteLoop_eq 0 h
  rw [Int.natCast_zero] at hpass
  rw [hpass]
  exact isNumeral_numeral (Radix.divide_digits (by decide) (digitsOf_lt h))

/-- The pass of a turn: it leaves `ptr` at the quotient, behind the zeros in front of it. -/
theorem divideTurn_cons {s : DivState} (hstring : StringAt s.buffers s.ptr (c :: t)) (hnumeral : IsNumeral (c :: t))
    (hlength : (c :: t).length < 128) (hsize : s.buffers.next.length = 128) {bytes : Bytes}
    (hbytes : bytes = if s.bigIntBytes.length < 128 then s.bigIntBytes ++ [.ofInt (divByteLoop 0 (c :: t)).2] else s.bigIntBytes) :
    ∃ b' ptr, StringAt b' ptr ((divByteLoop 0 (c :: t)).1.dropWhile (· = 48)) ∧ b'.next.length = 128 ∧
      divideTurn s = (b'.deref ptr).bind fun d => if d = 0 then some (.inr bytes) else some (.inl ⟨b', ptr, bytes⟩) := by
  have hbehind : ∀ i, s.ptr = .next i → 0 ≤ i := fun _ _ => Nat.zero_le _
  have hpass := divideLoop_eq hnumeral.ne_zero hstring hbehind (by omega) (by omega) (by omega : (c :: t).length < 129) 0
  have hqlen := length_divByteLoop 0 (c :: t)
  generalize hcarry : (divByteLoop 0 (c :: t)).2 = carry at hpass hbytes
  generalize (divByteLoop 0 (c :: t)).1 = q at hpass hqlen
  rw [Nat.zero_add, List.take_zero, List.nil_append] at hpass
  have hsizes : (q ++ s.buffers.next.drop (c :: t).length).length = 128 := by
    rw [List.length_append, hqlen, List.length_drop]
    omega
  -- the zero goes behind the quotient
  have hwritten : (q ++ s.buffers.next.drop (c :: t).length).set (c :: t).length 0 =
      q ++ 0 :: s.buffers.next.drop ((c :: t).length + 1) := by
    have hdrop : s.buffers.next.drop (c :: t).length =
        s.buffers.next[(c :: t).length] :: s.buffers.next.drop ((c :: t).length + 1) := List.drop_eq_getElem_cons (by omega)
    rw [hdrop, List.set_append_right _ _ (Nat.le_of_eq hqlen), hqlen, Nat.sub_self, List.set_cons_zero]
  have hquotient : StringAt ⟨s.buffers.temp, q ++ 0 :: s.buffers.next.drop ((c :: t).length + 1)⟩ (.next 0) q := ⟨_, rfl⟩
  obtain ⟨ptr, hptr, hleft⟩ := skipZeros_eq hquotient (by omega : q.length < 129)
  refine ⟨_, ptr, hleft, ?_, ?_⟩
  · rw [← hwritten, List.length_set, hsizes]
  · simp only [divideTurn, hstring.deref_cons, Option.bind_eq_bind, Option.bind_some, if_neg (hnumeral.ne_zero c List.mem_cons_self),
      hpass, hsizes, if_pos hlength, hwritten, hptr, ← hbytes, Option.pure_def]

/-- The turn lemma. A turn in the buffers is a turn on the text. -/
theorem divideTurn_simulates (s : DivState) (r : Bytes × Bytes) (h : Holds s r) :
    (∃ s' r', divideTurn s = some (.inl s') ∧ bigIntTurn r = some (.inl r') ∧ Holds s' r') ∨
      ∃ result, divideTurn s = some (.inr result) ∧ bigIntTurn r = some (.inr result) := by
  obtain ⟨text, stored⟩ := r
  obtain ⟨hstring, hnumeral, hlength, hsize, hstored⟩ := h
  dsimp only at hstring hnumeral hlength hstored
  cases text with
  | nil =>
    refine .inr ⟨stored, ?_, rfl⟩
    simp only [divideTurn, hstring.deref_nil, Option.bind_eq_bind, Option.bind_some, if_true, Option.pure_def, hstored]
  | cons c text =>
    subst hstored
    obtain ⟨bytes, hbytes⟩ : ∃ bytes, bytes =
        if s.bigIntBytes.length < 128 then s.bigIntBytes ++ [.ofInt (divByteLoop 0 (c :: text)).2] else s.bigIntBytes := ⟨_, rfl⟩
    obtain ⟨b', ptr, hleft, hsize', hturn⟩ := divideTurn_cons hstring hnumeral hlength hsize hbytes
    have hqnumeral := isNumeral_divByteLoop hnumeral
    have hqlen := length_divByteLoop 0 (c :: text)
    have htexts : bigIntTurn (c :: text, s.bigIntBytes) =
        if (divByteLoop 0 (c :: text)).1.dropWhile (· = 48) = [] then some (.inr bytes)
        else some (.inl ((divByteLoop 0 (c :: text)).1.dropWhile (· = 48), bytes)) := by
      rw [hbytes]
      rfl
    have hsub := List.dropWhile_sublist (fun x : UInt8 => decide (x = 48)) (l := (divByteLoop 0 (c :: text)).1)
    cases hrest : (divByteLoop 0 (c :: text)).1.dropWhile (· = 48) with
    | nil =>
      rw [hrest] at hleft
      refine .inr ⟨bytes, ?_, ?_⟩
      · rw [hturn, hleft.deref_nil, Option.bind_some, if_pos rfl]
      · rw [htexts, if_pos hrest]
    | cons d rest =>
      rw [hrest] at hleft hsub
      have hdigits : IsNumeral (d :: rest) := fun x hx => hqnumeral x (hsub.subset hx)
      refine .inl ⟨⟨b', ptr, bytes⟩, (d :: rest, bytes), ?_, ?_, ⟨hleft, hdigits, ?_, hsize', rfl⟩⟩
      · rw [hturn, hleft.deref_cons, Option.bind_some, if_neg (hdigits.ne_zero d List.mem_cons_self)]
      · rw [htexts, hrest, if_neg (List.cons_ne_nil d rest)]
      · exact Nat.lt_of_le_of_lt hsub.length_le (by omega)

/-! ## The bytes the other way round -/

theorem reverseLoop_append (byteLen : Nat) (is js : List Nat) (l : Bytes) :
    reverseLoop byteLen (is ++ js) l = reverseLoop byteLen js (reverseLoop byteLen is l) := by
  induction is generalizing l with
  | nil => rfl
  | cons i is ih =>
    rw [List.cons_append, reverseLoop, reverseLoop]
    exact ih _

/-- After the turns before `k` the first `k` places and the last ones are exchanged. -/
theorem reverseLoop_upTo (l : Bytes) {k : Nat} (hk : k ≤ l.length / 2) :
    (reverseLoop l.length (List.range k) l).length = l.length ∧
      ∀ j < l.length, (reverseLoop l.length (List.range k) l)[j]? =
        if j < k ∨ l.length ≤ j + k then l[l.length - 1 - j]? else l[j]? := by
  induction k with
  | zero =>
    refine ⟨rfl, fun j hj => ?_⟩
    rw [if_neg (by omega)]
    rfl
  | succ k ih =>
    obtain ⟨hlen, hplaces⟩ := ih (by omega)
    rw [List.range_succ, reverseLoop_append]
    set done := reverseLoop l.length (List.range k) l with hdone
    have hlow : done[k]? = l[k]? := by rw [hplaces k (by omega), if_neg (by omega)]
    have hhigh : done[l.length - 1 - k]? = l[l.length - 1 - k]? := by rw [hplaces _ (by omega), if_neg (by omega)]
    have hturn : reverseLoop l.length [k] done =
        (done.set k (l[l.length - 1 - k]!)).set (l.length - 1 - k) (l[k]!) := by
      simp only [reverseLoop, List.getElem!_eq_getElem?_getD, hlow, hhigh]
    rw [hturn]
    refine ⟨by rw [List.length_set, List.length_set, hlen], fun j hj => ?_⟩
    by_cases hlast : l.length - 1 - k = j
    · have hback : l.length - 1 - j = k := by omega
      rw [List.getElem?_set, if_pos hlast, if_pos (by rw [List.length_set, hlen]; omega), if_pos (by omega), hback,
        List.getElem!_eq_getElem?_getD, List.getElem?_eq_getElem (by omega : k < l.length), Option.getD_some]
    · by_cases hfirst : k = j
      · rw [List.getElem?_set, if_neg hlast, List.getElem?_set, if_pos hfirst, if_pos (by omega), if_pos (by omega), ← hfirst,
          List.getElem!_eq_getElem?_getD, List.getElem?_eq_getElem (by omega : l.length - 1 - k < l.length), Option.getD_some]
      · rw [List.getElem?_set, if_neg hlast, List.getElem?_set, if_neg hfirst, hplaces j hj]
        exact if_congr (by omega) rfl rfl

/-- The loop reverses the bytes. -/
theorem reverseLoop_eq (l : Bytes) : reverseLoop l.length (List.range (l.length / 2)) l = l.reverse := by
  obtain ⟨hlen, hplaces⟩ := reverseLoop_upTo l (Nat.le_refl _)
  refine List.ext_getElem? fun j => ?_
  by_cases hj : j < l.length
  · rw [hplaces j hj, List.getElem?_reverse hj]
    split
    · rfl
    · congr 1
      omega
  · rw [List.getElem?_eq_none (by omega), List.getElem?_eq_none (by rw [List.length_reverse]; omega)]

/-- The lines of `auth_pre` on their buffers are those on the text that stands in `temp`. -/
theorem decimalToBytes_eq (fuel : Nat) {text rest : Bytes} (h : IsNumeral text) (hlength : text.length < 128) {next : Bytes}
    (hsize : next.length = 128) : decimalToBytes fuel ⟨text ++ 0 :: rest, next⟩ = bigIntBytes fuel text := by
  have hstart : Holds ⟨⟨text ++ 0 :: rest, next⟩, .temp 0, []⟩ (text, []) := ⟨⟨rest, rfl⟩, h, hlength, hsize, rfl⟩
  rw [decimalToBytes, bigIntBytes, Loop.iterate_of_simulation divideTurn_simulates hstart fuel]
  cases Loop.iterate bigIntTurn fuel (text, []) with
  | none => rfl
  | some result =>
    rw [Option.bind_eq_bind, Option.bind_some, reverseLoop_eq]
    rfl

end AuthVideo
