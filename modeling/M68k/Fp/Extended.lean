import M68k.Fp.Conversion

/-!
# Operations of the extended format only

The floating-point unit works on extended numbers; here are the operations that no other format has:
scaling by a power of two, taking exponent and significand apart, rounding to the current precision,
and the conversion from a scaled integer.
-/

namespace M68k

namespace Extended

open Fp

/-- The encoding with sign and exponent in `high` and the significand in `low`. -/
def ofParts (high : BitVec 16) (low : BitVec 64) : Extended :=
  ⟨high.getLsbD 15, high.extractLsb' 0 15, low⟩

/-- Sign and exponent as one word. -/
def high (x : Extended) : BitVec 16 := BitVec.ofBool x.sign ++ x.exponent

/-- The number one. -/
def one : Extended := ofFields extended80 false 0x3FFF (Nat.pow 2 63)

/-- Scaling exponents are limited to this size; every result is far out of range before. -/
def scaleLimit : Int := 0x10000

/-- An exponent brought into the range of `scaleLimit`. -/
def clampScale (n : Int) : Int := max (-scaleLimit) (min scaleLimit n)

/-- Rounds `± mantissa · 2 ^ exponent` to the precision of the environment. -/
def ofScaled (env : Environment) (sign : Bool) (mantissa : Nat) (exponent : Int) :
    Raised Extended :=
  if mantissa = 0 then pure (zero extended80 sign)
  else encode extended80 env env.precision.bits sign (.dyadic mantissa (clampScale exponent))

/-- Rounds a finite number to the precision of the environment.  A signalling NaN becomes quiet; all
other encodings stay as they are. -/
def roundToPrecision (env : Environment) (x : Extended) : Raised Extended :=
  match x.kind with
  | .finite => encode extended80 env env.precision.bits x.sign x.magnitude
  | .nan => if x.isSignaling then propagateNaN x x else pure x
  | _ => pure x

/-- Multiplies by `2 ^ n`. -/
def scale (env : Environment) (x : Extended) (n : Int) : Raised Extended :=
  match x.kind with
  | .nan => propagateNaN x x
  | .zero | .infinity => pure x
  | .finite =>
    encode extended80 env env.precision.bits x.sign
      (.dyadic x.coefficient (x.unitExponent + clampScale n))

/-- The exponent of the leading one, as a number.  An infinity has none. -/
def getExponent (env : Environment) (x : Extended) : Raised Extended :=
  match x.kind with
  | .nan => propagateNaN x x
  | .zero => pure x
  | .infinity => invalid extended80
  | .finite => ofInt extended80 env x.lead

/-- The significand as a number between one and two, with the sign kept.  An infinity has none. -/
def getMantissa (env : Environment) (x : Extended) : Raised Extended :=
  match x.kind with
  | .nan => propagateNaN x x
  | .zero => pure x
  | .infinity => invalid extended80
  | .finite =>
    encode extended80 env 64 x.sign (.dyadic x.coefficient (x.unitExponent - x.lead))

/-- The nearest double, in the default environment. -/
def toDouble (x : Extended) : Fp binary64 := (convert binary64 {} x).value

/-- A double as an extended number, which is exact. -/
def ofDouble (x : Fp binary64) : Extended := (convert extended80 {} x).value

end Extended

end M68k
