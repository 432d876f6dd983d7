import M68k.Fp.Extended
import M68k.Fp.WorkingForm

/-!
# Operations in working form

The operations on encodings, computed in machine words: operands are unpacked, the kernel of the
operation gives a result in working form, and rounding packs that.  An operation has no result if
one of its steps has none.
-/

namespace M68k

namespace Checked

open Wide

variable {f : Format}

/-! ## Fields -/

/-- The stored significand. -/
def significandField (x : Fp f) : Wide := x.significand.setWidth 128

/-- The biased exponent. -/
def exponentField (x : Fp f) : Int := x.exponent.toNat

/-- The encoding with the given fields, each cut to its width. -/
def assemble (f : Format) (sign : Bool) (exponent : Int) (significand : Wide) : Fp f :=
  ⟨sign, BitVec.ofInt _ exponent, significand.setWidth _⟩

/-- The bits below the integer bit. -/
def fractionMask (f : Format) : Option Wide := do sub? (← shl? 1 f.fractionBits) 1

/-- The top fraction bit. -/
def quietBit (f : Format) : Option Wide := do shl? 1 (← uint32? (f.fractionBits - 1))

def kind (x : Fp f) : Option Kind := do
  let fraction := significandField x &&& (← fractionMask f)
  if exponentField x = f.exponentMax then
    return if fraction = 0 then .infinity else .nan
  else if significandField x = 0 ∧ (exponentField x = 0 ∨ f.explicitInteger) then return .zero
  else return .finite

def isSignaling (x : Fp f) : Option Bool := do
  if (← kind x) = .nan then return significandField x &&& (← quietBit f) = 0 else return false

def zero (f : Format) (sign : Bool) : Fp f := assemble f sign 0 0

def infinity (f : Format) (sign : Bool) : Option (Fp f) := do
  if f.explicitInteger then return assemble f sign f.exponentMax (← shl? 1 f.fractionBits)
  else return assemble f sign f.exponentMax 0

def defaultNaN (f : Format) : Option (Fp f) := do
  return assemble f false f.exponentMax (← sub? (← shl? 1 f.storedBits) 1)

def quiet (x : Fp f) : Option (Fp f) := do
  let significand := significandField x ||| (← quietBit f)
  if f.explicitInteger then
    return assemble f x.sign f.exponentMax (significand ||| (← shl? 1 f.fractionBits))
  else return assemble f x.sign f.exponentMax significand

def propagateNaN (a b : Fp f) : Option (Raised (Fp f)) := do
  let signals := (← isSignaling a) || (← isSignaling b)
  let nan ← if (← kind a) = .nan then quiet a else quiet b
  return ⟨nan, Flags.when signals Flags.invalid⟩

def invalid (f : Format) : Option (Raised (Fp f)) := do return ⟨← defaultNaN f, Flags.invalid⟩

/-! ## Unpacking and rounding -/

/-- The exponent of the integer bit of a finite encoding, and the significand with it. -/
def parts (x : Fp f) : Option (Int × Wide) := do
  if f.explicitInteger then
    return (← int32? (max (exponentField x) 1 - f.bias), significandField x)
  else if exponentField x = 0 then return (← int32? (1 - f.bias), significandField x)
  else
    return (← int32? (exponentField x - f.bias),
      significandField x ||| (← shl? 1 f.fractionBits))

/-- A finite encoding other than zero in working form. -/
def unpack (x : Fp f) : Option Working := do
  let (exponent, significand) ← parts x
  Working.ofParts x.sign (← int32? ((← int32? (exponent - f.fractionBits)) + 126)) significand

/-- The encoding of a rounded significand of so many bits. -/
def packRounded (f : Format) (sign : Bool) (biased : Int) (rounded : Wide) (precision : Nat) :
    Option (Fp f) := do
  let stored ← shl? rounded (← uint32? (f.precision - precision))
  if f.explicitInteger then return assemble f sign biased stored
  else return assemble f sign biased (stored &&& (← fractionMask f))

def overflow (f : Format) (mode : RoundingMode) (sign : Bool) (precision : Nat) :
    Option (Raised (Fp f)) := do
  let flags := Flags.overflow ||| Flags.inexact
  if mode.overflowsToInfinity sign then return ⟨← infinity f sign, flags⟩
  else
    let largest ← sub? (← shl? 1 precision) 1
    return ⟨← packRounded f sign (← int32? (f.exponentMax - 1)) largest precision, flags⟩

/-- A rounded significand in which a carry may have moved the leading one up. -/
def settleCarry (rounded : Wide) (biased : Int) (precision : Nat) : Option (Wide × Int) := do
  if (← shr? rounded precision) ≠ 0 then return (rounded >>> 1, ← int32? (biased + 1))
  else return (rounded, biased)

/-- Rounding in the normal range. -/
def packNormal (f : Format) (env : Environment) (sign : Bool) (biased : Int) (significand : Wide)
    (precision : Nat) : Option (Raised (Fp f)) := do
  let (rounded, inexact) ←
    roundBits env.rounding sign significand (← uint32? (127 - precision))
  let (rounded, biased) ← settleCarry rounded biased precision
  if f.exponentMax ≤ biased then overflow f env.rounding sign precision
  else
    return ⟨← packRounded f sign biased rounded precision, Flags.when inexact Flags.inexact⟩

/-- Whether a significand below the normal range counts as tiny. -/
def tiny (env : Environment) (sign : Bool) (biased : Int) (significand : Wide) (precision : Nat) :
    Option Bool :=
  match env.tininess with
  | .beforeRounding => some true
  | .afterRounding =>
    if biased < 0 then some true
    else do
      let (rounded, _) ←
        roundBits env.rounding sign significand (← uint32? (127 - precision))
      return (← shr? rounded precision) = 0

/-- Rounding below the normal range: the lower the exponent, the more bits are lost. -/
def packSubnormal (f : Format) (env : Environment) (sign : Bool) (biased : Int)
    (significand : Wide) (precision : Nat) : Option (Raised (Fp f)) := do
  let tiny ← tiny env sign biased significand precision
  let drop ← uint32? (127 - precision)
  let lowered ← uint32? (← int32? (1 - biased))
  let (rounded, inexact) ←
    roundBits env.rounding sign significand (min (drop + lowered) 0xFFFFFFFF)
  let biased := if (← shr? rounded (← uint32? (precision - 1))) ≠ 0 then 1 else 0
  return ⟨← packRounded f sign biased rounded precision,
    Flags.when inexact Flags.inexact ||| Flags.when (inexact && tiny) Flags.underflow⟩

/-- Rounds a number in working form to so many bits.  Its significand is zero or has its leading one
in place. -/
def roundPack (f : Format) (env : Environment) (x : Working) (precision : Nat) :
    Option (Raised (Fp f)) :=
  if x.significand = 0 then some (pure (zero f x.sign))
  else do
    guard (x.significand >>> 126 = 1)
    let biased ← int32? (x.exponent + f.bias)
    if 1 ≤ biased then packNormal f env x.sign biased x.significand precision
    else packSubnormal f env x.sign biased x.significand precision

/-! ## Arithmetic -/

/-- The sum, with the second operand negated or not. -/
def addWith (negated : Bool) (env : Environment) (a b : Fp f) : Option (Raised (Fp f)) := do
  let precision := Fp.workingPrecision f env
  let sign := b.sign ^^ negated
  match ← kind a, ← kind b with
  | .nan, _ | _, .nan => propagateNaN a b
  | .infinity, .infinity => if a.sign = sign then return pure a else invalid f
  | .infinity, _ => return pure a
  | _, .infinity => return pure (← infinity f sign)
  | .zero, .zero =>
    return pure (zero f (if a.sign = sign then sign else env.rounding = .down))
  | .zero, .finite => roundPack f env { ← unpack b with sign } precision
  | .finite, .zero => roundPack f env (← unpack a) precision
  | .finite, .finite =>
    roundPack f env (← Working.add env.rounding (← unpack a) { ← unpack b with sign }) precision

def add (env : Environment) (a b : Fp f) : Option (Raised (Fp f)) := addWith false env a b

def sub (env : Environment) (a b : Fp f) : Option (Raised (Fp f)) := addWith true env a b

def mul (env : Environment) (a b : Fp f) : Option (Raised (Fp f)) := do
  let sign := a.sign ^^ b.sign
  match ← kind a, ← kind b with
  | .nan, _ | _, .nan => propagateNaN a b
  | .infinity, .zero | .zero, .infinity => invalid f
  | .infinity, _ | _, .infinity => return pure (← infinity f sign)
  | .zero, _ | _, .zero => return pure (zero f sign)
  | .finite, .finite =>
    roundPack f env (← Working.mul (← unpack a) (← unpack b)) (Fp.workingPrecision f env)

def div (env : Environment) (a b : Fp f) : Option (Raised (Fp f)) := do
  let sign := a.sign ^^ b.sign
  match ← kind a, ← kind b with
  | .nan, _ | _, .nan => propagateNaN a b
  | .infinity, .infinity | .zero, .zero => invalid f
  | .infinity, _ => return pure (← infinity f sign)
  | _, .infinity => return pure (zero f sign)
  | .finite, .zero => return ⟨← infinity f sign, Flags.divideByZero⟩
  | .zero, .finite => return pure (zero f sign)
  | .finite, .finite =>
    roundPack f env (← Working.div (← unpack a) (← unpack b)) (Fp.workingPrecision f env)

def sqrt (env : Environment) (a : Fp f) : Option (Raised (Fp f)) := do
  match ← kind a with
  | .nan => propagateNaN a a
  | .zero => return pure a
  | .infinity => if a.sign then invalid f else return pure a
  | .finite =>
    if a.sign then invalid f
    else roundPack f env (← Working.sqrt (← unpack a)) (Fp.workingPrecision f env)

/-- A remainder with the quotient's last 64 bits. -/
def remainder (env : Environment) (nearest : Bool) (a b : Fp f) :
    Option (Raised (Fp.Remainder f)) := do
  let answer (quotient : BitVec 64) (value : Raised (Fp f)) : Raised (Fp.Remainder f) :=
    ⟨⟨value.value, quotient, a.sign ^^ b.sign⟩, value.flags⟩
  match ← kind a, ← kind b with
  | .nan, _ | _, .nan => return answer 0 (← propagateNaN a b)
  | .infinity, _ | _, .zero => return answer 0 (← invalid f)
  | .zero, _ | _, .infinity => return answer 0 (pure a)
  | .finite, .finite =>
    let (rest, quotient) ← Working.remainder nearest (← unpack a) (← unpack b)
    return answer quotient (← roundPack f env rest f.precision)

/-! ## Integers, other formats, and order -/

/-- The whole part of a number below a bound, rounded, and whether there was more.  All shifts above
the width of the significand lose the same. -/
def wholePart (mode : RoundingMode) (x : Working) : Option (Wide × Bool) := do
  let below ← int32? (126 - x.exponent)
  roundBits mode x.sign x.significand (← uint32? (min below 250))

def roundToIntegral (env : Environment) (mode : RoundingMode) (a : Fp f) :
    Option (Raised (Fp f)) := do
  match ← kind a with
  | .nan => propagateNaN a a
  | .zero | .infinity => return pure a
  | .finite =>
    let x ← unpack a
    if f.fractionBits ≤ x.exponent then return pure a
    else
      let (magnitude, inexact) ← wholePart mode x
      let flags := Flags.when inexact Flags.inexact
      if magnitude = 0 then return ⟨zero f x.sign, flags⟩
      else
        -- the flags of this step are dropped
        let exact ← roundPack f env (← Working.ofInteger x.sign magnitude) f.precision
        return ⟨exact.value, flags⟩

/-- The largest positive integer of so many bits. -/
def largestInteger (width : Nat) : Option Wide := do
  sub? (← shl? 1 (← uint32? ((width : Int) - 1))) 1

/-- The last 64 bits as a signed integer. -/
def asInt64 (a : Wide) : Int := (a.setWidth 64).toInt

/-- The end of the range of integers on the side of a sign. -/
def saturated (largest : Wide) (negative : Bool) : Option Int := do
  if negative then int64? ((← int64? (-asInt64 largest)) - 1) else return asInt64 largest

def toInt (width : Nat) (mode : RoundingMode) (a : Fp f) : Option (Raised Int) := do
  let largest ← largestInteger width
  match ← kind a with
  | .nan => return ⟨← saturated largest false, Flags.invalid⟩
  | .infinity => return ⟨← saturated largest a.sign, Flags.invalid⟩
  | .zero => return pure 0
  | .finite =>
    let x ← unpack a
    if width ≤ x.exponent then return ⟨← saturated largest x.sign, Flags.invalid⟩
    else
      let (magnitude, inexact) ← wholePart mode x
      let limit ← if x.sign then add? largest 1 else some largest
      if limit < magnitude then return ⟨← saturated largest x.sign, Flags.invalid⟩
      else
        let value := if x.sign then (-magnitude.setWidth 64).toInt else asInt64 magnitude
        return ⟨value, Flags.when inexact Flags.inexact⟩

def ofInt (f : Format) (env : Environment) (n : Int) : Option (Raised (Fp f)) := do
  if n = 0 then return pure (zero f false)
  else
    roundPack f env (← Working.ofInteger (n < 0) (BitVec.ofNat 128 n.natAbs)) f.precision

/-- Re-encodes a NaN in another format.  The payload goes by way of the top of the word. -/
def convertNaN (g : Format) (a : Fp f) : Option (Raised (Fp g)) := do
  let signals ← isSignaling a
  let fraction := significandField a &&& (← fractionMask f)
  let payload ← shl? fraction (← uint32? (128 - f.fractionBits))
  let significand := (← shr? payload (← uint32? (128 - g.fractionBits))) ||| (← quietBit g)
  let flags := Flags.when signals Flags.invalid
  if g.explicitInteger then
    return ⟨assemble g a.sign g.exponentMax (significand ||| (← shl? 1 g.fractionBits)), flags⟩
  else return ⟨assemble g a.sign g.exponentMax significand, flags⟩

def convert (g : Format) (env : Environment) (a : Fp f) : Option (Raised (Fp g)) := do
  match ← kind a with
  | .nan => convertNaN g a
  | .infinity => return pure (← infinity g a.sign)
  | .zero => return pure (zero g a.sign)
  | .finite => roundPack g env (← unpack a) g.precision

/-- The key of a number other than zero, in a word each. -/
def keyOfParts (negative : Bool) (exponent : Int) (significand : Wide) :
    Option Fp.SortKey := do
  if negative then
    return ⟨← int8? (-1), ← int64? (-exponent),
      (← sub? (BitVec.allOnes 128) significand).toNat⟩
  else return ⟨1, exponent, significand.toNat⟩

def sortKey (a : Fp f) (kind : Kind) : Option Fp.SortKey := do
  match kind with
  | .zero => return ⟨0, 0, 0⟩
  | .infinity => keyOfParts a.sign 0x7FFFFFFFFFFFFFFF 0
  | _ =>
    let x ← unpack a
    keyOfParts a.sign x.exponent x.significand

def compareWith (signaling : Bool) (a b : Fp f) : Option (Raised (Option Ordering)) := do
  let ka ← kind a
  let kb ← kind b
  if ka = .nan ∨ kb = .nan then
    let signals := signaling || (← isSignaling a) || (← isSignaling b)
    return ⟨none, Flags.when signals Flags.invalid⟩
  else return pure (some ((← sortKey a ka).order (← sortKey b kb)))

/-! ## The extended format -/

/-- A number in working form with a limited amount added to its exponent. -/
def scaled (x : Working) (n : Int) : Option Working := do
  return { x with exponent := ← int32? (x.exponent + Extended.clampScale n) }

def ofScaled (env : Environment) (sign : Bool) (mantissa : Wide) (exponent : Int) :
    Option (Raised Extended) := do
  if mantissa = 0 then return pure (zero extended80 sign)
  else
    roundPack extended80 env (← scaled (← Working.ofInteger sign mantissa) exponent)
      env.precision.bits

/-- Sign, significand and exponent of the last place. -/
def scaledInteger (x : Extended) : Option (Bool × Nat × Int) := do
  let exponent ← int32? (max (exponentField x) 1 - extended80.bias)
  return (x.sign, x.significand.toNat, ← int32? (exponent - extended80.fractionBits))

def roundToPrecision (env : Environment) (x : Extended) : Option (Raised Extended) := do
  match ← kind x with
  | .finite => roundPack extended80 env (← unpack x) env.precision.bits
  | .nan => if ← isSignaling x then propagateNaN x x else return pure x
  | _ => return pure x

def scale (env : Environment) (x : Extended) (n : Int) : Option (Raised Extended) := do
  match ← kind x with
  | .nan => propagateNaN x x
  | .zero | .infinity => return pure x
  | .finite => roundPack extended80 env (← scaled (← unpack x) n) env.precision.bits

def getExponent (env : Environment) (x : Extended) : Option (Raised Extended) := do
  match ← kind x with
  | .nan => propagateNaN x x
  | .zero => return pure x
  | .infinity => invalid extended80
  | .finite => ofInt extended80 env (← unpack x).exponent

def getMantissa (env : Environment) (x : Extended) : Option (Raised Extended) := do
  match ← kind x with
  | .nan => propagateNaN x x
  | .zero => return pure x
  | .infinity => invalid extended80
  | .finite => roundPack extended80 env { ← unpack x with exponent := 0 } 64

end Checked

end M68k
