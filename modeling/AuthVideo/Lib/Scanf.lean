import Mathlib.Algebra.Group.Nat.Even
import Mathlib.Data.List.Basic

/-!
# Texts read by a format

The directives of a format take the front of a text one after the other, and the first one that does not match ends the reading.
What was read before it stays.
-/

namespace Scanf

variable {α : Type*}

/-- The characters that a format speaks of, and the width of the type that it reads numbers in. -/
structure Locale (α : Type*) where
  isSpace : α → Bool
  digit : α → Option ℕ
  plus : α
  minus : α
  width : ℕ

/-- A directive of a format. -/
inductive Directive (α : Type*) where
  /-- White space in the format. -/
  | blank
  | literal (c : α)
  /-- `%s`. -/
  | word
  /-- `%[]`, with the greatest length where one is given. -/
  | span (p : α → Bool) (width : Option ℕ)
  /-- `%*[]`. -/
  | skip (p : α → Bool)
  /-- `%u` with the width of its variable. -/
  | unsigned (bits : ℕ)

/-- What a directive stores. -/
inductive Item (α : Type*) where
  | text (s : List α)
  | number (n : ℕ)
  deriving DecidableEq, Repr

/-- The digits at the front, and what is behind them. -/
def digits (L : Locale α) : List α → List ℕ × List α
  | [] => ([], [])
  | c :: s =>
    match L.digit c with
    | some d => let (ds, rest) := digits L s; (d :: ds, rest)
    | none => ([], c :: s)

/-- A number of digits in a type of a width, the largest one where it is too large for it. -/
def value (L : Locale α) (negative : Bool) (ds : List ℕ) : ℕ :=
  let n := ds.foldl (fun n d => 10 * n + d) 0
  if 2 ^ L.width ≤ n then 2 ^ L.width - 1 else if negative then (2 ^ L.width - n) % 2 ^ L.width else n

variable [DecidableEq α]

/-- A sign at the front. -/
def sign (L : Locale α) : List α → Bool × List α
  | [] => (false, [])
  | c :: s => if c = L.minus then (true, s) else if c = L.plus then (false, s) else (false, c :: s)

/-- What a directive stores and leaves. -/
def Directive.read (L : Locale α) : Directive α → List α → Option (List (Item α) × List α)
  | .blank, s => some ([], s.dropWhile L.isSpace)
  | .literal c, s =>
    match s with
    | d :: s => if d = c then some ([], s) else none
    | [] => none
  | .word, s =>
    let s := s.dropWhile L.isSpace
    let w := s.takeWhile fun c => !L.isSpace c
    if w = [] then none else some ([.text w], s.drop w.length)
  | .span p width, s =>
    let w := (s.take (width.getD s.length)).takeWhile p
    if w = [] then none else some ([.text w], s.drop w.length)
  | .skip p, s =>
    let w := s.takeWhile p
    if w = [] then none else some ([], s.drop w.length)
  | .unsigned bits, s =>
    let (negative, s) := sign L (s.dropWhile L.isSpace)
    let (ds, rest) := digits L s
    if ds = [] then none else some ([.number (value L negative ds % 2 ^ bits)], rest)

/-- What a format stores from a text. -/
def scan (L : Locale α) : List (Directive α) → List α → List (Item α)
  | [], _ => []
  | d :: ds, s =>
    match d.read L s with
    | some (items, rest) => items ++ scan L ds rest
    | none => []

/-- The texts that were stored are shorter than the buffers for them. -/
def fits : List (Item α) → List ℕ → Bool
  | .text s :: items, n :: sizes => s.length < n && fits items sizes
  | .number _ :: items, _ :: sizes => fits items sizes
  | _, _ => true

/-! ## Reading -/

section Reading

variable {L : Locale α}

@[simp] theorem scan_nil (s : List α) : scan L [] s = [] := rfl

/-- A directive that matches. -/
theorem scan_cons {d : Directive α} {s rest : List α} {items : List (Item α)} (h : d.read L s = some (items, rest))
    (ds : List (Directive α)) : scan L (d :: ds) s = items ++ scan L ds rest := by
  simp only [scan, h]

/-- A literal that stands at the front. -/
@[simp] theorem scan_literal (c : α) (s : List α) (ds : List (Directive α)) :
    scan L (.literal c :: ds) (c :: s) = scan L ds s := by
  have hread : (Directive.literal c).read L (c :: s) = some ([], s) := by simp [Directive.read]
  rw [scan_cons hread]
  rfl

/-- So are the literals of a text. -/
theorem scan_literals (pat s : List α) (ds : List (Directive α)) : scan L (pat.map .literal ++ ds) (pat ++ s) = scan L ds s := by
  induction pat with
  | nil => rfl
  | cons c pat ih =>
    rw [List.map_cons, List.cons_append, List.cons_append, scan_literal]
    exact ih

/-- A span of characters in front of one that is none of them. -/
theorem scan_span {p : α → Bool} {width : ℕ} {s rest : List α} (hs : ∀ c ∈ s, p c = true) (hne : s ≠ []) (hwidth : s.length ≤ width)
    (hrest : ∀ c ∈ rest.head?, p c = false) (ds : List (Directive α)) :
    scan L (.span p (some width) :: ds) (s ++ rest) = .text s :: scan L ds rest := by
  have hstop : (rest.take (width - s.length)).takeWhile p = [] := by
    rcases rest with _ | ⟨c, rest⟩
    · simp
    · rcases width - s.length with _ | n
      · simp
      · rw [List.take_succ_cons, List.takeWhile_cons_of_neg (by simpa using hrest c rfl)]
  have hspan : ((s ++ rest).take width).takeWhile p = s := by
    rw [List.take_append, List.take_of_length_le hwidth, List.takeWhile_append_of_pos hs, hstop, List.append_nil]
  have hread : (Directive.span p (some width)).read L (s ++ rest) = some ([.text s], rest) := by
    simp only [Directive.read, Option.getD_some, hspan, if_neg hne, List.drop_left]
  rw [scan_cons hread]
  rfl

omit [DecidableEq α] in
/-- The digits in front of a character that is none. -/
theorem digits_append {s rest : List α} {ds : List ℕ} (hs : s.map L.digit = ds.map some)
    (hrest : ∀ c ∈ rest.head?, L.digit c = none) : digits L (s ++ rest) = (ds, rest) := by
  induction s generalizing ds with
  | nil =>
    obtain rfl : ds = [] := by simpa using hs.symm
    cases rest with
    | nil => rfl
    | cons c rest =>
      have hc := hrest c (by simp)
      simp [digits, hc]
  | cons c s ih =>
    cases ds with
    | nil => simp at hs
    | cons d ds =>
      simp only [List.map_cons, List.cons.injEq] at hs
      simp only [List.cons_append, digits, hs.1, ih hs.2]

/-- A number without a sign in front of a character that is no digit. -/
theorem scan_unsigned {s rest : List α} {d : ℕ} {ds : List ℕ} (hs : s.map L.digit = (d :: ds).map some)
    (hrest : ∀ c ∈ rest.head?, L.digit c = none)
    (hfirst : ∀ c ∈ s.head?, L.isSpace c = false ∧ c ≠ L.minus ∧ c ≠ L.plus) (bits : ℕ) (format : List (Directive α)) :
    scan L (.unsigned bits :: format) (s ++ rest) = .number (value L false (d :: ds) % 2 ^ bits) :: scan L format rest := by
  have hdigits := digits_append hs hrest
  cases s with
  | nil => simp at hs
  | cons c s =>
    obtain ⟨hspace, hminus, hplus⟩ := hfirst c (by simp)
    rw [List.cons_append] at hdigits ⊢
    have hdrop : (c :: (s ++ rest)).dropWhile L.isSpace = c :: (s ++ rest) := List.dropWhile_cons_of_neg (by simp [hspace])
    have hread : (Directive.unsigned bits).read L (c :: (s ++ rest)) = some ([.number (value L false (d :: ds) % 2 ^ bits)], rest) := by
      simp only [Directive.read, hdrop, sign, if_neg hminus, if_neg hplus, hdigits]
      simp
    rw [scan_cons hread]
    rfl

end Reading

end Scanf
