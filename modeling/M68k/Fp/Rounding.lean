import M68k.Fp.Format
import M68k.Fp.Magnitude

/-!
# Rounding an exact magnitude into a format

`Fp.encode` is the one place where a result is rounded.  It keeps `precision` significant bits, with
the unit never below that of the least normal number, and reports whether the result is inexact,
overflows or is tiny.

* `RoundingMode.roundsUp_zero` — an exact value is never moved;
* `RoundingMode.round_bounds` — rounding goes to one of the two neighbouring integers.
-/

namespace M68k

namespace RoundingMode

/-- Whether a directed mode moves numbers of this sign away from zero. -/
def awayFromZero (mode : RoundingMode) (negative : Bool) : Bool :=
  match mode with
  | .up => !negative
  | .down => negative
  | _ => false

/-- Whether a magnitude of `units` whole units and a remnant is rounded away from zero. -/
def roundsUp (mode : RoundingMode) (negative : Bool) (units : Nat) : Remnant → Bool
  | .zero => false
  | .low => mode.awayFromZero negative
  | .half => if mode = .nearestEven then units % 2 = 1 else mode.awayFromZero negative
  | .high => mode = .nearestEven || mode.awayFromZero negative

/-- A magnitude rounded to a whole number of units. -/
def round (mode : RoundingMode) (negative : Bool) (parts : Nat × Remnant) : Nat :=
  if mode.roundsUp negative parts.1 parts.2 then parts.1 + 1 else parts.1

/-- An exact value is never moved. -/
@[simp] theorem roundsUp_zero (mode : RoundingMode) (negative : Bool) (units : Nat) :
    mode.roundsUp negative units .zero = false := rfl

/-- Rounding goes to one of the two neighbouring whole numbers. -/
theorem round_bounds (mode : RoundingMode) (negative : Bool) (parts : Nat × Remnant) :
    parts.1 ≤ mode.round negative parts ∧ mode.round negative parts ≤ parts.1 + 1 := by
  unfold round
  split <;> omega

/-- Where a result that is too large goes: to infinity in the nearest mode and in the directed mode
of its sign. -/
def overflowsToInfinity (mode : RoundingMode) (negative : Bool) : Bool :=
  match mode with
  | .nearestEven => true
  | .toZero => false
  | .up => !negative
  | .down => negative

end RoundingMode

namespace Fp

variable {f : Format}

/-- The significant bits kept in results of format `f`: the environment only limits extended
results. -/
def workingPrecision (f : Format) (env : Environment) : Nat :=
  if f.explicitInteger then env.precision.bits else f.precision

/-- The largest finite number of a sign with `precision` significant bits. -/
def largest (f : Format) (precision : Nat) (sign : Bool) : Fp f :=
  ofFields f sign (f.exponentMax - 1) ((Nat.pow 2 precision - 1) <<< (f.precision - precision))

/-- The result of an operation whose rounded value is too large. -/
def overflow (f : Format) (mode : RoundingMode) (precision : Nat) (sign : Bool) : Raised (Fp f) :=
  ⟨if mode.overflowsToInfinity sign then infinity f sign else largest f precision sign,
    Flags.overflow ||| Flags.inexact⟩

/-- The least exponent that the leading one of a normal number of the format can have. -/
def leastLead (f : Format) : Int := 1 - (f.bias : Int)

/-- Whether a magnitude counts as tiny: its leading one lies below the normal range, judged before
or after rounding it to `precision` bits with an unbounded exponent. -/
def isTiny (f : Format) (env : Environment) (precision : Nat) (sign : Bool) (x : Magnitude) :
    Bool :=
  match env.tininess with
  | .beforeRounding => x.lead < leastLead f
  | .afterRounding =>
    let rounded := env.rounding.round sign (x.split (x.lead - (precision - 1 : Nat)))
    (if rounded = Nat.pow 2 precision then x.lead + 1 else x.lead) < leastLead f

/-- Rounds a positive magnitude, taken with a sign, to `precision` significant bits and encodes it.
The unit is at least that of the least normal number, so small results lose bits gradually. -/
def encode (f : Format) (env : Environment) (precision : Nat) (sign : Bool) (x : Magnitude) :
    Raised (Fp f) :=
  let unit := max x.lead (leastLead f) - (precision - 1 : Nat)
  let parts := x.split unit
  let rounded := env.rounding.round sign parts
  let inexact : Bool := parts.2 ≠ .zero
  -- a carry out of the kept bits moves the leading one up
  let (coefficient, lead) :=
    if rounded = Nat.pow 2 precision then (Nat.pow 2 (precision - 1), max x.lead (leastLead f) + 1)
    else (rounded, max x.lead (leastLead f))
  let exponent : Int := if coefficient < Nat.pow 2 (precision - 1) then 0 else lead + f.bias
  if f.exponentMax ≤ exponent then overflow f env.rounding precision sign
  else
    ⟨ofFields f sign exponent.toNat (coefficient <<< (f.precision - precision)),
      Flags.when inexact Flags.inexact |||
        Flags.when (inexact && isTiny f env precision sign x) Flags.underflow⟩

/-- Rounds `± |coefficient| · 2 ^ exponent`, taking the sign of zero from `zeroSign`. -/
def encodeDyadic (f : Format) (env : Environment) (precision : Nat) (zeroSign : Bool)
    (coefficient : Int) (exponent : Int) : Raised (Fp f) :=
  if coefficient = 0 then pure (zero f zeroSign)
  else encode f env precision (coefficient < 0) (.dyadic coefficient.natAbs exponent)

end Fp

end M68k
