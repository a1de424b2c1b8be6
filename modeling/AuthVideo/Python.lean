import AuthVideo.Lib.Decimal

/-!
# The interpreter and the hash under the simulation

The simulation turns numbers into decimal texts and back (`int(str(a) + str(b))`) and hashes the text of a number. A
conversion can raise: `int` on a text that is no numeral, and both directions above the interpreter's limit on digits.
`gmssl` is not part of the repository, so its hash is a parameter. The limit on recursion is a setting of the interpreter that no
function looks at, like the stack of a C program; it is left out.
-/

namespace AuthVideo

/-- The exceptions that the modelled functions can raise. -/
inductive PyError where
  | valueError
  | typeError
  | attributeError
  | fileNotFoundError
  | keyError
  | zeroDivisionError
  | structError
  deriving DecidableEq, Repr

/-- A text, as the list of its characters. -/
abbrev Text := List Char

/-- What the simulation takes from outside the repository. -/
structure Ctx where
  /-- The hash of a text, read as an integer: `int(sm3.sm3_hash(...), 16)`. -/
  sm3 : Text → Nat
  /-- The hash has 64 hexadecimal digits. -/
  sm3_lt : ∀ t, sm3 t < 2 ^ 256
  /-- `sys.get_int_max_str_digits()`: the most digits a conversion admits, with 0 for no limit. -/
  maxStrDigits : Nat

/-- A conversion of `n` digits is within the interpreter's limit. -/
def Ctx.Allows (Γ : Ctx) (n : Nat) : Prop := Γ.maxStrDigits = 0 ∨ n ≤ Γ.maxStrDigits

instance (Γ : Ctx) (n : Nat) : Decidable (Γ.Allows n) := inferInstanceAs (Decidable (_ ∨ _))

/-- The decimal text of an integer. -/
def decimal (z : Int) : Text := if z < 0 then '-' :: Nat.toDigits 10 z.natAbs else Nat.toDigits 10 z.natAbs

/-- `str` on an integer. -/
def Ctx.str (Γ : Ctx) (z : Int) : Except PyError Text :=
  if Γ.Allows (Nat.toDigits 10 z.natAbs).length then .ok (decimal z) else .error .valueError

/-- `str` on what `request.get` returns, an integer or `None`. -/
def Ctx.strField (Γ : Ctx) : Option Int → Except PyError Text
  | none => .ok ['N', 'o', 'n', 'e']
  | some z => Γ.str z

/-- The unsigned part of `int`: a nonempty text of digits. -/
def Ctx.digits (Γ : Ctx) (t : Text) : Except PyError Nat :=
  if t ≠ [] ∧ t.all Char.isDigit ∧ Γ.Allows t.length then .ok (Nat.ofDigitChars 10 t 0) else .error .valueError

/-- `int` on a text. The blanks and underscores that `int` also admits never occur in the texts it is given here. -/
def Ctx.int (Γ : Ctx) : Text → Except PyError Int
  | '-' :: t => (Γ.digits t).map fun n => -(n : Int)
  | t => (Γ.digits t).map fun n => (n : Int)

/-- `int(str(a) + str(b) + ...)`. -/
def Ctx.cat (Γ : Ctx) (vs : List (Option Int)) : Except PyError Int := do
  let ts ← vs.mapM Γ.strField
  Γ.int ts.flatten

/-- `sm3_hash` on an integer: the hash of its decimal text. -/
def Ctx.sm3Hash (Γ : Ctx) (message : Int) : Except PyError Int := do
  let t ← Γ.str message
  return Γ.sm3 t

/-- `sm3_hash(int(str(a) + str(b) + ...))`, the shape of every hash of the protocol. -/
def Ctx.sm3Cat (Γ : Ctx) (vs : List (Option Int)) : Except PyError Int := do
  let message ← Γ.cat vs
  Γ.sm3Hash message

/-- Arithmetic on a value that may be `None`. -/
def asInt : Option Int → Except PyError Int
  | none => .error .typeError
  | some z => .ok z

/-- An attribute that `__init__` does not set and a later call may. -/
def attr {α : Type} : Option α → Except PyError α
  | none => .error .attributeError
  | some a => .ok a

end AuthVideo
