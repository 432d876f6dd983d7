import M68k.Fp.Arithmetic

/-!
# Integers, other formats, and order

Rounding to an integral value, conversion from and to signed integers, conversion between formats,
and the comparison of numbers.
-/

namespace M68k

namespace Fp

variable {f : Format}

/-- The exact magnitude of a finite non-zero number. -/
def magnitude (a : Fp f) : Magnitude := .dyadic a.coefficient a.unitExponent

/-- Rounds to an integral value.  A number without bits below the units stays as it is encoded, and
a result of zero keeps its sign. -/
def roundToIntegral (env : Environment) (mode : RoundingMode) (a : Fp f) : Raised (Fp f) :=
  match a.kind with
  | .nan => propagateNaN a a
  | .zero | .infinity => pure a
  | .finite =>
    if (f.fractionBits : Int) ≤ a.lead then pure a
    else do
      let parts := a.magnitude.split 0
      let rounded := mode.round a.sign parts
      Raised.raise (Flags.when (parts.2 ≠ .zero) Flags.inexact)
      if rounded = 0 then return zero f a.sign
      -- what raises flags is the rounding, not the encoding of what it gives
      return (encode f env f.precision a.sign (.dyadic rounded 0)).value

/-- Rounds to an integral value in the environment's mode. -/
def roundToInt (env : Environment) (a : Fp f) : Raised (Fp f) :=
  roundToIntegral env env.rounding a

/-- Rounds to an integral value toward zero. -/
def truncToInt (env : Environment) (a : Fp f) : Raised (Fp f) :=
  roundToIntegral env .toZero a

/-- The end of the range of signed `width`-bit integers on the side of a sign. -/
def integerLimit (width : Nat) (negative : Bool) : Int :=
  if negative then -(Nat.pow 2 (width - 1) : Nat) else (Nat.pow 2 (width - 1) - 1 : Nat)

/-- Converts to a signed integer of `width` bits.  A NaN, or a number that does not fit after
rounding, is invalid and gives the nearer end of the range, a NaN the upper one. -/
def toInt (width : Nat) (mode : RoundingMode) (a : Fp f) : Raised Int :=
  match a.kind with
  | .nan => ⟨integerLimit width false, Flags.invalid⟩
  | .infinity => ⟨integerLimit width a.sign, Flags.invalid⟩
  | .zero => pure 0
  | .finite =>
    if (width : Int) ≤ a.lead then ⟨integerLimit width a.sign, Flags.invalid⟩
    else
      let parts := a.magnitude.split 0
      let rounded := mode.round a.sign parts
      if (integerLimit width a.sign).natAbs < rounded then
        ⟨integerLimit width a.sign, Flags.invalid⟩
      else
        ⟨if a.sign then -(rounded : Int) else rounded, Flags.when (parts.2 ≠ .zero) Flags.inexact⟩

/-- Converts a signed integer, rounding to all bits of the format. -/
def ofInt (f : Format) (env : Environment) (n : Int) : Raised (Fp f) :=
  encodeDyadic f env f.precision false n 0

/-- Encodes a NaN in another format: quiet, with the sign and the top payload bits kept. -/
def convertNaN (g : Format) (a : Fp f) : Raised (Fp g) :=
  let payload :=
    if f.fractionBits ≤ g.fractionBits then a.fraction <<< (g.fractionBits - f.fractionBits)
    else a.fraction >>> (f.fractionBits - g.fractionBits)
  ⟨(ofFields g a.sign g.exponentMax payload).quiet, Flags.when a.isSignaling Flags.invalid⟩

/-- Converts to another format, rounding to all its bits. -/
def convert (g : Format) (env : Environment) (a : Fp f) : Raised (Fp g) :=
  match a.kind with
  | .nan => convertNaN g a
  | .infinity => pure (infinity g a.sign)
  | .zero => pure (zero g a.sign)
  | .finite => encode g env g.precision a.sign a.magnitude

/-- What numbers are sorted by: their sign, the exponent of the leading one, and the significand
with the leading one in a fixed place. -/
structure SortKey where
  rank : Int
  exponent : Int
  significand : Nat
  deriving DecidableEq, Repr

/-- The key of a number other than zero.  Below zero the greater magnitude comes first. -/
def SortKey.ofParts (negative : Bool) (exponent : Int) (significand : Nat) : SortKey :=
  if negative then ⟨-1, -exponent, Nat.pow 2 128 - 1 - significand⟩
  else ⟨1, exponent, significand⟩

/-- The order of two keys: the first field in which they differ decides. -/
def SortKey.order (a b : SortKey) : Ordering :=
  (compare a.rank b.rank).then
    ((compare a.exponent b.exponent).then (compare a.significand b.significand))

/-- The key of an encoding other than a NaN.  Both zeros have the same one, and the exponent of an
infinity is above all others. -/
def sortKey (a : Fp f) : SortKey :=
  match a.kind with
  | .zero => ⟨0, 0, 0⟩
  | .infinity => .ofParts a.sign (Nat.pow 2 63 - 1) 0
  | _ => .ofParts a.sign a.lead (a.coefficient <<< (126 - a.coefficient.log2))

/-- The order of the numbers that two encodings other than NaNs denote; the zeros are equal. -/
def order (a b : Fp f) : Ordering := a.sortKey.order b.sortKey

/-- Compares two numbers; there is no order with a NaN.  A signalling comparison raises `invalid`
for every NaN, a quiet one for signalling NaNs only. -/
def compareWith (signaling : Bool) (a b : Fp f) : Raised (Option Ordering) :=
  if a.isNaN || b.isNaN then
    ⟨none, Flags.when (signaling || a.isSignaling || b.isSignaling) Flags.invalid⟩
  else pure (some (order a b))

/-- Quiet three-way comparison. -/
def compareQuiet (a b : Fp f) : Raised (Option Ordering) := compareWith false a b

/-- Quiet equality. -/
def equal (a b : Fp f) : Raised Bool := do
  return (← compareWith false a b) = some .eq

/-- Signalling equality. -/
def equalSignaling (a b : Fp f) : Raised Bool := do
  return (← compareWith true a b) = some .eq

/-- Signalling "less than". -/
def lessThan (a b : Fp f) : Raised Bool := do
  return (← compareWith true a b) = some .lt

/-- Signalling "at most". -/
def lessEqual (a b : Fp f) : Raised Bool := do
  return (← compareWith true a b).any Ordering.isLE

/-- Quiet "less than". -/
def lessThanQuiet (a b : Fp f) : Raised Bool := do
  return (← compareWith false a b) = some .lt

/-- Quiet "at most". -/
def lessEqualQuiet (a b : Fp f) : Raised Bool := do
  return (← compareWith false a b).any Ordering.isLE

end Fp

end M68k
