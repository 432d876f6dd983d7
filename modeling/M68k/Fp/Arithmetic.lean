import M68k.Fp.Rounding

/-!
# Arithmetic: sum, difference, product, quotient, square root, remainder

Each operation answers NaN, infinite and zero operands from their encodings; for the rest it forms
the exact result and rounds it once with `Fp.encode`.
-/

namespace M68k

namespace Fp

variable {f : Format}

/-- The exact sum of two dyadic numbers, at the smaller of their exponents. -/
def alignedSum (a : Int) (p : Int) (b : Int) (q : Int) : Int × Int :=
  let exponent := min p q
  (a <<< (p - exponent).toNat + b <<< (q - exponent).toNat, exponent)

/-- Adds two finite numbers.  An exact zero takes the common sign of its operands; of operands with
different signs it is negative in mode `down` only. -/
def addFinite (env : Environment) (a b : Fp f) : Raised (Fp f) :=
  let (coefficient, exponent) :=
    alignedSum a.signedCoefficient a.unitExponent b.signedCoefficient b.unitExponent
  let zeroSign := if a.sign = b.sign then a.sign else env.rounding = .down
  encodeDyadic f env (workingPrecision f env) zeroSign coefficient exponent

/-- The sum of two numbers. -/
def add (env : Environment) (a b : Fp f) : Raised (Fp f) :=
  match a.kind, b.kind with
  | .nan, _ | _, .nan => propagateNaN a b
  | .infinity, .infinity => if a.sign = b.sign then pure a else invalid f
  | .infinity, _ => pure a
  | _, .infinity => pure (infinity f b.sign)
  | _, _ => addFinite env a b

/-- The difference of two numbers.  A NaN operand keeps its sign. -/
def sub (env : Environment) (a b : Fp f) : Raised (Fp f) :=
  if a.isNaN || b.isNaN then propagateNaN a b else add env a b.negate

/-- The product of two numbers. -/
def mul (env : Environment) (a b : Fp f) : Raised (Fp f) :=
  let sign := a.sign ^^ b.sign
  match a.kind, b.kind with
  | .nan, _ | _, .nan => propagateNaN a b
  | .infinity, .zero | .zero, .infinity => invalid f
  | .infinity, _ | _, .infinity => pure (infinity f sign)
  | .zero, _ | _, .zero => pure (zero f sign)
  | .finite, .finite =>
    encode f env (workingPrecision f env) sign
      (.dyadic (a.coefficient * b.coefficient) (a.unitExponent + b.unitExponent))

/-- The quotient of two numbers. -/
def div (env : Environment) (a b : Fp f) : Raised (Fp f) :=
  let sign := a.sign ^^ b.sign
  match a.kind, b.kind with
  | .nan, _ | _, .nan => propagateNaN a b
  | .infinity, .infinity | .zero, .zero => invalid f
  | .infinity, _ => pure (infinity f sign)
  | _, .infinity => pure (zero f sign)
  | .finite, .zero => ⟨infinity f sign, Flags.divideByZero⟩
  | .zero, .finite => pure (zero f sign)
  | .finite, .finite =>
    encode f env (workingPrecision f env) sign
      (.ratio a.coefficient b.coefficient (a.unitExponent - b.unitExponent))

/-- A number's magnitude as a square root, with the exponent made even first. -/
def rootMagnitude (coefficient : Nat) (exponent : Int) : Magnitude :=
  if exponent % 2 = 0 then .root coefficient (exponent / 2)
  else .root (2 * coefficient) (exponent / 2)

/-- The square root of a number; that of a negative zero is itself. -/
def sqrt (env : Environment) (a : Fp f) : Raised (Fp f) :=
  match a.kind with
  | .nan => propagateNaN a a
  | .zero => pure a
  | .infinity => if a.sign then invalid f else pure a
  | .finite =>
    if a.sign then invalid f
    else encode f env (workingPrecision f env) false (rootMagnitude a.coefficient a.unitExponent)

/-- A remainder with the integer quotient that it belongs to: the quotient's magnitude modulo
`2 ^ 64` and its sign. -/
structure Remainder (f : Format) where
  value : Fp f
  quotient : BitVec 64
  negative : Bool
  deriving DecidableEq, Repr

/-- Divides `a · 2 ^ p` by `b · 2 ^ q` to an integer: the quotient's magnitude, and the signed
remainder as a multiple of a power of two.  The quotient is truncated or, with `nearest`, rounded to
the nearest integer with ties to even; then the remainder can have the opposite sign. -/
def divideToInteger (nearest : Bool) (a : Nat) (p : Int) (b : Nat) (q : Int) : Nat × Int × Int :=
  let exponent := min p q
  let n := a <<< (p - exponent).toNat
  let d := b <<< (q - exponent).toNat
  let quotient := n / d
  let rest := n % d
  if nearest && RoundingMode.roundsUp .nearestEven false quotient (.ofRemainder rest d) then
    (quotient + 1, (rest : Int) - d, exponent)
  else (quotient, rest, exponent)

/-- The remainder of `a` by `b`, which is always exact.  A zero remainder has the sign of `a`. -/
def remainder (env : Environment) (nearest : Bool) (a b : Fp f) : Raised (Remainder f) := do
  let negative := a.sign ^^ b.sign
  match a.kind, b.kind with
  | .nan, _ | _, .nan => return ⟨← propagateNaN a b, 0, negative⟩
  | .infinity, _ | _, .zero => return ⟨← invalid f, 0, negative⟩
  | .zero, _ | _, .infinity => return ⟨a, 0, negative⟩
  | .finite, .finite =>
    let (quotient, rest, exponent) :=
      divideToInteger nearest a.coefficient a.unitExponent b.coefficient b.unitExponent
    let signed := if a.sign then -rest else rest
    return ⟨← encodeDyadic f env f.precision a.sign signed exponent,
      BitVec.ofNat 64 quotient, negative⟩

/-- The remainder of `a` by `b` for the quotient rounded to the nearest integer. -/
def rem (env : Environment) (a b : Fp f) : Raised (Fp f) := do
  return (← remainder env true a b).value

/-- The quotient of a remainder is reported with the sign of the exact quotient. -/
theorem remainder_negative (env : Environment) (nearest : Bool) (a b : Fp f) :
    (remainder env nearest a b).value.negative = (a.sign ^^ b.sign) := by
  unfold remainder
  split <;> rfl

end Fp

end M68k
