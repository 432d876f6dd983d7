import M68k.Decimal.Limbs
import M68k.Decimal.Packed
import M68k.Fp.WorkingOperation

/-!
# Decimal conversion in limbs

The conversions of packed decimal numbers, with numbers of any size in limbs and all others in
machine words.  Every division makes sure of what it relies on.  A conversion has no result if one
of its steps has none.
-/

namespace M68k

theorem of_int32? {n m : Int} (fits : int32? n = some m) :
    m = n ∧ -0x80000000 ≤ n ∧ n < 0x80000000 := by
  unfold int32? signed? at fits
  split at fits
  · next range => exact ⟨(Option.some.inj fits).symm, range⟩
  · exact absurd fits (Option.some_ne_none m).symm

namespace Decimal.Checked

open M68k.Checked (ofScaled scaledInteger)

/-! ## Decoding -/

/-- Appends the eight decimal digits of a word to a number. -/
def appendDigits (number : Wide) (word : BitVec 32) : Option Wide :=
  [28, 24, 20, 16, 12, 8, 4, 0].foldlM (fun n shift => do
    Wide.add? (← Wide.mul? n 10) ((word.extractLsb' shift 4).setWidth 128)) number

def mantissa (image : Image) : Option Wide := do
  appendDigits (← appendDigits ((image.first.extractLsb' 0 4).setWidth 128) image.second)
    image.third

/-- The hundred leading bits of a number and the exponent of the last of them. -/
def topBits (number : Limbs) : Option (Wide × Int) := do
  let length ← number.bitLength
  if length ≤ 120 then return (number.lowWide, 0)
  else do
    let shift ← uint32? (length - 100)
    return ((number.shr shift).lowWide ||| Wide.bit (number.lowBitsNonzero shift), ← int32? shift)

/-- Leading bits of `mantissa · 10 ^ power` and the exponent of the last of them. -/
def leadingBits (mantissa : Wide) (power : Int) : Option (Wide × Int) := do
  let scale ← Limbs.pow10 power.natAbs
  let number := Limbs.ofWide mantissa
  if 0 ≤ power then topBits (← number.mul scale)
  else do
    let extra := (← uint32? ((← scale.bitLength) + 100)) - (← number.bitLength)
    let (quotient, rest) ← (number.shl extra).divRem scale
    return (quotient ||| Wide.bit (rest ≠ []), ← int32? (-(← int32? extra)))

/-- The value of a packed decimal operand, rounded to extended precision, and the exceptions of the
conversion. -/
def decode (env : Environment) (image : Image) : Option (Extended × Fpu.Register) := do
  let sign := image.first.getLsbD 31
  if image.first &&& specialMask = specialMask then
    if image.second = 0 ∧ image.third = 0 then return (Fp.infinity extended80 sign, 0)
    else return (⟨sign, BitVec.allOnes 15, image.second ++ image.third⟩, 0)
  else do
    let digits ← mantissa image
    if digits = 0 then return (Fp.zero extended80 sign, 0)
    else do
      let (bits, shift) ← leadingBits digits (← int32? (exponent image - 16))
      let result ← ofScaled { env with precision := .extended } sign bits shift
      return (result.value,
        if result.flags.includes Flags.inexact then Fpu.inexactDecimal else 0)

/-! ## Encoding -/

/-- The order of a positive fraction and a power of ten. -/
def comparePow10 (numerator denominator : Limbs) (power : Int) : Option Ordering := do
  let scale ← Limbs.pow10 power.natAbs
  if 0 ≤ power then return numerator.compare (← denominator.mul scale)
  else return (← numerator.mul scale).compare denominator

/-- Lowers a guess until its power of ten does not exceed the fraction. -/
def lowerLog10 (numerator denominator : Limbs) (guess : Int) : Option Int := do
  if (← comparePow10 numerator denominator guess) = .lt then
    match _ : int32? (guess - 1) with
    | none => none
    | some next => lowerLog10 numerator denominator next
  else return guess
termination_by (guess + 0x80000000).toNat
decreasing_by
  obtain ⟨rfl, low, -⟩ := of_int32? ‹_›
  omega

/-- Raises a guess as long as the next power of ten does not exceed the fraction. -/
def raiseLog10 (numerator denominator : Limbs) (guess : Int) : Option Int :=
  match _ : int32? (guess + 1) with
  | none => none
  | some next => do
    if (← comparePow10 numerator denominator next) ≠ .lt then
      raiseLog10 numerator denominator next
    else return guess
termination_by (0x80000000 - guess).toNat
decreasing_by
  obtain ⟨rfl, -, high⟩ := of_int32? ‹_›
  omega

/-- The exponent of the leading decimal digit of a positive fraction, found from a first guess. -/
def floorLog10 (numerator denominator : Limbs) (guess : Int) : Option Int := do
  raiseLog10 numerator denominator (← lowerLog10 numerator denominator guess)

/-- The number of significant digits that a k-factor asks for. -/
def digitCount (k : Int) (lead : Int) : Option Nat := do
  if 0 < k then return min k.toNat maxDigits
  else return (max 1 (min (maxDigits : Int) (← int32? ((← int32? (lead + 1)) - k)))).toNat

/-- A finite number as a fraction. -/
def fractionOf (x : Extended) : Option (Limbs × Limbs) := do
  let (_, significand, exponent) ← scaledInteger x
  let number := Limbs.ofWide (BitVec.ofNat 128 significand)
  if 0 ≤ exponent then return (number.shl exponent.natAbs, Limbs.ofWide 1)
  else return (number, (Limbs.ofWide 1).shl exponent.natAbs)

/-- A fraction times a power of ten. -/
def scaleFraction (fraction : Limbs × Limbs) (power : Int) : Option (Limbs × Limbs) := do
  let scale ← Limbs.pow10 power.natAbs
  if 0 ≤ power then return (← fraction.1.mul scale, fraction.2)
  else return (fraction.1, ← fraction.2.mul scale)

/-- Digits in which rounding may have carried out of the first one. -/
def settleCarry (rounded : Wide) (count : Nat) (lead : Int) : Option (Wide × Int) := do
  if rounded = BitVec.ofNat 128 (Nat.pow 10 count) then
    return (rounded / 10, ← int32? (lead + 1))
  else return (rounded, lead)

/-- The image of a number with the digits that the k-factor asks for, and the exceptions of the
conversion. -/
def encodeFrom (guess : Int) (mode : RoundingMode) (k : Int) (x : Extended) :
    Option (Image × Fpu.Register) := do
  let special : BitVec 32 := (if x.sign then 0x80000000#32 else 0) ||| specialMask
  match x.kind with
  | .infinity => return (⟨special, 0, 0⟩, 0)
  | .nan =>
    return (⟨special, x.significand.extractLsb' 32 32, x.significand.extractLsb' 0 32⟩, 0)
  | .zero => return (assemble x.sign 0 0, 0)
  | .finite =>
    let (numerator, denominator) ← fractionOf x
    let lead ← floorLog10 numerator denominator guess
    let count ← digitCount k lead
    let scale ← int32? ((← int32? (count - 1)) - lead)
    let (n, d) ← scaleFraction (numerator, denominator) scale
    let (quotient, rest) ← n.divRem d
    let (rounded, inexact) ←
      Wide.roundKept mode x.sign quotient (rest ≠ []) ((rest.shl 1).compare d)
    let (digits, lead) ← settleCarry rounded count lead
    let digits ← digits.mul? (BitVec.ofNat 128 (Nat.pow 10 (maxDigits - count)))
    let exceptions :=
      (if (maxDigits : Int) < k ∨ 999 < lead.natAbs then Fpu.operandError else 0)
        ||| (if inexact then Fpu.inexactResult else 0)
    return (assemble x.sign digits.toNat lead, exceptions)

end Decimal.Checked

end M68k
