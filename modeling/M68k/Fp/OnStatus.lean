import M68k.Fp.Extended

/-!
# Operations on a status

The operations as their callers see them.  Each one is handed the status of its caller, looks up
rounding direction, tininess rule and precision there when it needs them, and raises its flags
there.  Only the last step of rounding to an integral value works on a copy of the status, and what
it raises on the copy is dropped.

* `raise`, `raiseWhen`, `onCopy` — what can be done to a status;
* `encode` — rounding, which looks at the status and raises flags on it.
-/

namespace M68k

/-- An action on the status of its caller. -/
abbrev StatusM := StateM Status

namespace Fp.OnStatus

variable {f : Format}

/-- Raises flags. -/
def raise (flags : Flags) : StatusM Unit := modify (·.raise flags)

/-- Raises flags if the condition holds. -/
def raiseWhen (condition : Bool) (flags : Flags) : StatusM Unit :=
  if condition then raise flags else pure ()

/-- Does something with a copy of the status, and drops the copy. -/
def onCopy {α : Type} (x : StatusM α) : StatusM α := return (x.run (← get)).1

/-! ## NaNs and rounding -/

/-- Raises `invalid` and gives the default NaN. -/
def invalid (f : Format) : StatusM (Fp f) := do
  raise Flags.invalid
  return defaultNaN f

/-- The NaN result of two operands of which one is a NaN. -/
def propagateNaN (a b : Fp f) : StatusM (Fp f) := do
  raiseWhen (a.isSignaling || b.isSignaling) Flags.invalid
  return if a.isNaN then a.quiet else b.quiet

/-- The result of an operation whose rounded value is too large. -/
def overflow (f : Format) (precision : Nat) (sign : Bool) : StatusM (Fp f) := do
  raise (Flags.overflow ||| Flags.inexact)
  let mode := (← get).rounding
  return if mode.overflowsToInfinity sign then infinity f sign else largest f precision sign

/-- Rounds a positive magnitude, taken with a sign, and encodes it. -/
def encode (f : Format) (precision : Nat) (sign : Bool) (x : Magnitude) : StatusM (Fp f) := do
  let mode := (← get).rounding
  let unit := max x.lead (leastLead f) - (precision - 1 : Nat)
  let parts := x.split unit
  let rounded := mode.round sign parts
  let inexact : Bool := parts.2 ≠ .zero
  -- a carry out of the kept bits moves the leading one up
  let (coefficient, lead) :=
    if rounded = Nat.pow 2 precision then (Nat.pow 2 (precision - 1), max x.lead (leastLead f) + 1)
    else (rounded, max x.lead (leastLead f))
  let exponent : Int := if coefficient < Nat.pow 2 (precision - 1) then 0 else lead + f.bias
  if f.exponentMax ≤ exponent then overflow f precision sign
  else do
    let tiny := isTiny f (← get).toEnvironment precision sign x
    raiseWhen (inexact && tiny) Flags.underflow
    raiseWhen inexact Flags.inexact
    return ofFields f sign exponent.toNat (coefficient <<< (f.precision - precision))

/-- Rounds a dyadic number, taking the sign of zero from `zeroSign`. -/
def encodeDyadic (f : Format) (precision : Nat) (zeroSign : Bool) (coefficient : Int)
    (exponent : Int) : StatusM (Fp f) :=
  if coefficient = 0 then return zero f zeroSign
  else encode f precision (coefficient < 0) (.dyadic coefficient.natAbs exponent)

/-- The significant bits of results of a format. -/
def precision (f : Format) : StatusM Nat := return workingPrecision f (← get).toEnvironment

/-! ## Arithmetic -/

/-- Adds two finite numbers. -/
def addFinite (a b : Fp f) : StatusM (Fp f) := do
  let precision ← precision f
  let (coefficient, exponent) :=
    alignedSum a.signedCoefficient a.unitExponent b.signedCoefficient b.unitExponent
  let mode := (← get).rounding
  let zeroSign := if a.sign = b.sign then a.sign else mode = .down
  encodeDyadic f precision zeroSign coefficient exponent

/-- The sum of two numbers. -/
def add (a b : Fp f) : StatusM (Fp f) :=
  match a.kind, b.kind with
  | .nan, _ | _, .nan => propagateNaN a b
  | .infinity, .infinity => if a.sign = b.sign then return a else invalid f
  | .infinity, _ => return a
  | _, .infinity => return infinity f b.sign
  | _, _ => addFinite a b

/-- The difference of two numbers. -/
def sub (a b : Fp f) : StatusM (Fp f) :=
  if a.isNaN || b.isNaN then propagateNaN a b else add a b.negate

/-- The product of two numbers. -/
def mul (a b : Fp f) : StatusM (Fp f) :=
  let sign := a.sign ^^ b.sign
  match a.kind, b.kind with
  | .nan, _ | _, .nan => propagateNaN a b
  | .infinity, .zero | .zero, .infinity => invalid f
  | .infinity, _ | _, .infinity => return infinity f sign
  | .zero, _ | _, .zero => return zero f sign
  | .finite, .finite => do
    encode f (← precision f) sign
      (.dyadic (a.coefficient * b.coefficient) (a.unitExponent + b.unitExponent))

/-- The quotient of two numbers. -/
def div (a b : Fp f) : StatusM (Fp f) :=
  let sign := a.sign ^^ b.sign
  match a.kind, b.kind with
  | .nan, _ | _, .nan => propagateNaN a b
  | .infinity, .infinity | .zero, .zero => invalid f
  | .infinity, _ => return infinity f sign
  | _, .infinity => return zero f sign
  | .finite, .zero => do
    raise Flags.divideByZero
    return infinity f sign
  | .zero, .finite => return zero f sign
  | .finite, .finite => do
    encode f (← precision f) sign
      (.ratio a.coefficient b.coefficient (a.unitExponent - b.unitExponent))

/-- The square root of a number. -/
def sqrt (a : Fp f) : StatusM (Fp f) :=
  match a.kind with
  | .nan => propagateNaN a a
  | .zero => return a
  | .infinity => if a.sign then invalid f else return a
  | .finite =>
    if a.sign then invalid f
    else do encode f (← precision f) false (rootMagnitude a.coefficient a.unitExponent)

/-- The remainder of `a` by `b`, with its quotient. -/
def remainder (nearest : Bool) (a b : Fp f) : StatusM (Remainder f) := do
  let negative := a.sign ^^ b.sign
  match a.kind, b.kind with
  | .nan, _ | _, .nan => return ⟨← propagateNaN a b, 0, negative⟩
  | .infinity, _ | _, .zero => return ⟨← invalid f, 0, negative⟩
  | .zero, _ | _, .infinity => return ⟨a, 0, negative⟩
  | .finite, .finite =>
    let (quotient, rest, exponent) :=
      divideToInteger nearest a.coefficient a.unitExponent b.coefficient b.unitExponent
    let signed := if a.sign then -rest else rest
    return ⟨← encodeDyadic f f.precision a.sign signed exponent, BitVec.ofNat 64 quotient, negative⟩

/-- The remainder of `a` by `b` for the quotient rounded to the nearest integer. -/
def rem (a b : Fp f) : StatusM (Fp f) := return (← remainder true a b).value

/-! ## Integers, other formats, and order -/

/-- Rounds to an integral value. -/
def roundToIntegral (mode : RoundingMode) (a : Fp f) : StatusM (Fp f) :=
  match a.kind with
  | .nan => propagateNaN a a
  | .zero | .infinity => return a
  | .finite =>
    if (f.fractionBits : Int) ≤ a.lead then return a
    else do
      let parts := a.magnitude.split 0
      let rounded := mode.round a.sign parts
      raiseWhen (parts.2 ≠ .zero) Flags.inexact
      if rounded = 0 then return zero f a.sign
      else onCopy (encode f f.precision a.sign (.dyadic rounded 0))

/-- Rounds to an integral value in the mode of the status. -/
def roundToInt (a : Fp f) : StatusM (Fp f) := do roundToIntegral (← get).rounding a

/-- Rounds to an integral value toward zero. -/
def truncToInt (a : Fp f) : StatusM (Fp f) := roundToIntegral .toZero a

/-- Raises `invalid` and gives the end of the range of integers on the side of a sign. -/
def saturate (width : Nat) (negative : Bool) : StatusM Int := do
  raise Flags.invalid
  return integerLimit width negative

/-- Converts to a signed integer of `width` bits. -/
def toIntegerIn (mode : RoundingMode) (width : Nat) (a : Fp f) : StatusM Int :=
  match a.kind with
  | .nan => saturate width false
  | .infinity => saturate width a.sign
  | .zero => return 0
  | .finite =>
    if (width : Int) ≤ a.lead then saturate width a.sign
    else
      let parts := a.magnitude.split 0
      let rounded := mode.round a.sign parts
      if (integerLimit width a.sign).natAbs < rounded then saturate width a.sign
      else do
        raiseWhen (parts.2 ≠ .zero) Flags.inexact
        return if a.sign then -(rounded : Int) else rounded

/-- Converts to a signed integer, in the mode of the status if none is given. -/
def toInt (width : Nat) (mode : Option RoundingMode) (a : Fp f) : StatusM Int := do
  toIntegerIn (mode.getD (← get).rounding) width a

/-- Converts a signed integer, rounding to all bits of the format. -/
def ofInt (f : Format) (n : Int) : StatusM (Fp f) := encodeDyadic f f.precision false n 0

/-- Encodes a NaN in another format. -/
def convertNaN (g : Format) (a : Fp f) : StatusM (Fp g) := do
  raiseWhen a.isSignaling Flags.invalid
  let payload :=
    if f.fractionBits ≤ g.fractionBits then a.fraction <<< (g.fractionBits - f.fractionBits)
    else a.fraction >>> (f.fractionBits - g.fractionBits)
  return (ofFields g a.sign g.exponentMax payload).quiet

/-- Converts to another format, rounding to all its bits. -/
def convert (g : Format) (a : Fp f) : StatusM (Fp g) :=
  match a.kind with
  | .nan => convertNaN g a
  | .infinity => return infinity g a.sign
  | .zero => return zero g a.sign
  | .finite => encode g g.precision a.sign a.magnitude

/-- Compares two numbers, signalling or quietly. -/
def compareWith (signaling : Bool) (a b : Fp f) : StatusM (Option Ordering) :=
  if a.isNaN || b.isNaN then do
    raiseWhen (signaling || a.isSignaling || b.isSignaling) Flags.invalid
    return none
  else return some (order a b)

/-- Quiet three-way comparison. -/
def compareQuiet (a b : Fp f) : StatusM (Option Ordering) := compareWith false a b

/-- Equality, signalling or quiet. -/
def equal (signaling : Bool) (a b : Fp f) : StatusM Bool := do
  return (← compareWith signaling a b) = some .eq

/-- "Less than", signalling or quiet. -/
def lessThan (signaling : Bool) (a b : Fp f) : StatusM Bool := do
  return (← compareWith signaling a b) = some .lt

/-- "At most", signalling or quiet. -/
def lessEqual (signaling : Bool) (a b : Fp f) : StatusM Bool := do
  return (← compareWith signaling a b).any Ordering.isLE

/-! ## The extended format -/

/-- The significant bits that the status asks for in extended results. -/
def extendedBits : StatusM Nat := return (← get).precision.bits

/-- Rounds `± mantissa · 2 ^ exponent` to the precision of the status. -/
def ofScaled (sign : Bool) (mantissa : Nat) (exponent : Int) : StatusM Extended :=
  if mantissa = 0 then return zero extended80 sign
  else do
    encode extended80 (← extendedBits) sign (.dyadic mantissa (Extended.clampScale exponent))

/-- Rounds a finite number to the precision of the status. -/
def roundToPrecision (x : Extended) : StatusM Extended :=
  match x.kind with
  | .finite => do encode extended80 (← extendedBits) x.sign x.magnitude
  | .nan => if x.isSignaling then propagateNaN x x else return x
  | _ => return x

/-- Multiplies by `2 ^ n`. -/
def scale (x : Extended) (n : Int) : StatusM Extended :=
  match x.kind with
  | .nan => propagateNaN x x
  | .zero | .infinity => return x
  | .finite => do
    encode extended80 (← extendedBits) x.sign
      (.dyadic x.coefficient (x.unitExponent + Extended.clampScale n))

/-- The exponent of the leading one, as a number. -/
def getExponent (x : Extended) : StatusM Extended :=
  match x.kind with
  | .nan => propagateNaN x x
  | .zero => return x
  | .infinity => invalid extended80
  | .finite => ofInt extended80 x.lead

/-- The significand as a number between one and two. -/
def getMantissa (x : Extended) : StatusM Extended :=
  match x.kind with
  | .nan => propagateNaN x x
  | .zero => return x
  | .infinity => invalid extended80
  | .finite => encode extended80 64 x.sign (.dyadic x.coefficient (x.unitExponent - x.lead))

end Fp.OnStatus

end M68k
