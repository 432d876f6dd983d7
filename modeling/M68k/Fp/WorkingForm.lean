import M68k.Fp.Status

/-!
# Arithmetic in machine words

Between unpacking and rounding, numbers are in working form: a significand of 128 bits with its
leading one at bit 126, and an exponent of 32 bits.  Bit 127 is room for a carry, the bits below the
precision of the result are guard bits, and bit 0 is set when anything was shifted out.

Machine words have an end.  Here an addition or subtraction that leaves its word, a shift by the
width of the word or more, and a step that is not given what it relies on have no result.
-/

namespace M68k

/-- A number of signed words whose least one is `-limit`. -/
def signed? (limit n : Int) : Option Int := if -limit ≤ n ∧ n < limit then some n else none

/-- A number of a signed word of 8 bits. -/
def int8? : Int → Option Int := signed? 0x80

/-- A number of a signed word of 32 bits, as exponents are. -/
def int32? : Int → Option Int := signed? 0x80000000

/-- A number of a signed word of 64 bits. -/
def int64? : Int → Option Int := signed? 0x8000000000000000

/-- A number of an unsigned word of 32 bits, as counts of bits are. -/
def uint32? (n : Int) : Option Nat := if 0 ≤ n ∧ n < 0x100000000 then some n.toNat else none

/-- An unsigned word of 128 bits. -/
abbrev Wide := BitVec 128

namespace Wide

/-- A word with the last bit only, or zero. -/
def bit (b : Bool) : Wide := if b then 1 else 0

def add? (a b : Wide) : Option Wide :=
  if a.toNat + b.toNat < Nat.pow 2 128 then some (a + b) else none

def sub? (a b : Wide) : Option Wide := if b.toNat ≤ a.toNat then some (a - b) else none

def mul? (a b : Wide) : Option Wide :=
  if a.toNat * b.toNat < Nat.pow 2 128 then some (a * b) else none

/-- Moves bits up; those that leave the word are lost. -/
def shl? (a : Wide) (n : Nat) : Option Wide := if n < 128 then some (a <<< n) else none

/-- Moves bits down; those that leave the word are lost. -/
def shr? (a : Wide) (n : Nat) : Option Wide := if n < 128 then some (a >>> n) else none

/-- The number of zeros above the leading one. -/
def leadingZeros (a : Wide) : Nat := if a = 0 then 128 else 127 - a.toNat.log2

/-- Shifts right; the last bit is set when anything is shifted out. -/
def shiftRightJam (a : Wide) (n : Nat) : Option Wide :=
  if n = 0 then some a
  else if 128 ≤ n then some (bit (a ≠ 0))
  else do
    let kept ← a.shr? n
    let lost ← a.shl? (← uint32? (128 - n))
    return kept ||| bit (lost ≠ 0)

/-- The low half of a word. -/
def lowHalf (a : Wide) : Wide := a &&& 0xFFFFFFFFFFFFFFFF

/-- The product of two words as two words, first the high one. -/
def mulWide (a b : Wide) : Option (Wide × Wide) := do
  let p00 ← mul? a.lowHalf b.lowHalf
  let p01 ← mul? a.lowHalf (b >>> 64)
  let p10 ← mul? (a >>> 64) b.lowHalf
  let p11 ← mul? (a >>> 64) (b >>> 64)
  let middle ← add? (← add? (p00 >>> 64) (lowHalf p01)) (lowHalf p10)
  let high ← add? (← add? (← add? p11 (p01 >>> 64)) (p10 >>> 64)) (middle >>> 64)
  return (high, lowHalf p00 ||| (middle <<< 64))

/-- Shifts two words right to one that has all bits of the result; the last bit is set when anything
is shifted out. -/
def shiftRightJamWide (high low : Wide) (n : Nat) : Option Wide := do
  guard (1 ≤ n ∧ n < 128)
  guard ((← high.shr? n) = 0)
  let above ← uint32? (128 - n)
  let lost ← low.shl? above
  return (← high.shl? above) ||| (← low.shr? n) ||| bit (lost ≠ 0)

/-- Moves the leading one to bit 126; the number tells by how much the exponent is then to be
raised. -/
def normalize (a : Wide) : Option (Wide × Int) := do
  guard (a ≠ 0)
  if a.leadingZeros = 0 then return (← a.shiftRightJam 1, 1)
  else do
    let shift ← uint32? (a.leadingZeros - 1)
    return (← a.shl? shift, ← int32? (-shift))

/-- The two bits from an even position on in two words. -/
def bitPairWide (high low : Wide) (index : Nat) : Option Wide := do
  guard (index % 2 = 0)
  if 128 ≤ index then return (← high.shr? (← uint32? (index - 128))) &&& 3
  else return (← low.shr? index) &&& 3

/-- Whether to round away from zero, by how what is lost compares with half a unit. -/
def roundsAway (mode : RoundingMode) (sign : Bool) (kept : Wide) (lost : Ordering) : Bool :=
  match mode with
  | .nearestEven =>
    match lost with
    | .gt => true
    | .eq => kept &&& 1 = 1
    | .lt => false
  | .toZero => false
  | .up => !sign
  | .down => sign

/-- Rounds what is kept when something is lost, and tells whether it is. -/
def roundKept (mode : RoundingMode) (sign : Bool) (kept : Wide) (inexact : Bool)
    (lost : Ordering) : Option (Wide × Bool) :=
  if inexact then do return (← kept.add? (bit (roundsAway mode sign kept lost)), true)
  else some (kept, false)

/-- Drops the low bits and rounds, and tells whether any of them was set. -/
def roundBits (mode : RoundingMode) (sign : Bool) (a : Wide) (shift : Nat) :
    Option (Wide × Bool) :=
  if shift = 0 then some (a, false)
  else if 128 ≤ shift then
    -- of what is lost as a whole, only a shift by just the width can reach a half
    roundKept mode sign 0 (a ≠ 0)
      (if shift = 128 then compare a.toNat (1 <<< 127 : Wide).toNat else .lt)
  else do
    let lost := a &&& (← (← shl? 1 shift).sub? 1)
    let half ← shl? 1 (shift - 1)
    roundKept mode sign (← a.shr? shift) (lost ≠ 0) (compare lost.toNat half.toNat)

/-! ## Digits one by one -/

/-- The bits of a quotient below a position, from the highest one on, and the last rest, which is
not zero when anything is left out. -/
def divideFrom (divisor : Wide) : Nat → Wide → Wide → Option (Wide × Wide)
  | 0, rest, quotient => some (quotient, rest)
  | position + 1, rest, quotient =>
    if divisor ≤ rest then do
      let less ← rest.sub? divisor
      divideFrom divisor position (less <<< 1) (quotient ||| (← shl? 1 position))
    else divideFrom divisor position (rest <<< 1) quotient

/-- The bits of a root below a position, each from the next two bits of the radicand. -/
def rootFrom (high low : Wide) : Nat → Wide → Wide → Option (Wide × Wide)
  | 0, rest, root => some (root, rest)
  | position + 1, rest, root => do
    let next := (rest <<< 2) ||| (← bitPairWide high low (position * 2))
    let trial := (root <<< 2) ||| 1
    if trial ≤ next then
      rootFrom high low position (← sub? next trial) ((root <<< 1) ||| 1)
    else rootFrom high low position next (root <<< 1)

/-- One more bit of an integer quotient, of which only the last ones are kept. -/
def reduceOnce (divisor rest : Wide) (quotient : BitVec 64) : Option (Wide × BitVec 64) :=
  if divisor ≤ rest then do return (← rest.sub? divisor, (quotient <<< 1) ||| 1)
  else some (rest, quotient <<< 1)

/-- The rest of a division to an integer, after a bit of the quotient and so many more. -/
def reduceFrom (divisor : Wide) : Nat → Wide → BitVec 64 → Option (Wide × BitVec 64)
  | 0, rest, quotient => reduceOnce divisor rest quotient
  | more + 1, rest, quotient => do
    let (rest, quotient) ← reduceOnce divisor rest quotient
    reduceFrom divisor more (rest <<< 1) quotient

end Wide

/-- A number in working form, `± significand · 2 ^ (exponent - 126)`. -/
structure Working where
  sign : Bool
  exponent : Int
  significand : Wide
  deriving DecidableEq, Repr

namespace Working

open Wide

/-- The zero of a sign. -/
def zero (sign : Bool) : Working := ⟨sign, 0, 0⟩

/-- A number with its leading one brought in place. -/
def ofParts (sign : Bool) (exponent : Int) (significand : Wide) : Option Working :=
  if significand = 0 then some (zero sign)
  else do
    let (significand, adjust) ← significand.normalize
    return ⟨sign, ← int32? (exponent + adjust), significand⟩

/-- An integer as a number. -/
def ofInteger (sign : Bool) (magnitude : Wide) : Option Working := ofParts sign 126 magnitude

/-- The sum of numbers other than zero, the first one with an exponent not below that of the
other. -/
def addOrdered (mode : RoundingMode) (big small : Working) : Option Working := do
  let distance ← int32? (big.exponent - small.exponent)
  let aligned ← small.significand.shiftRightJam (min distance.natAbs 200)
  if big.sign = small.sign then
    ofParts big.sign big.exponent (← big.significand.add? aligned)
  else
    match compare big.significand.toNat aligned.toNat with
    | .gt => ofParts big.sign big.exponent (← big.significand.sub? aligned)
    | .lt => ofParts small.sign big.exponent (← aligned.sub? big.significand)
    | .eq => return zero (mode = .down)

/-- The sum of two numbers. -/
def add (mode : RoundingMode) (a b : Working) : Option Working :=
  if a.significand = 0 then some b
  else if b.significand = 0 then some a
  else if b.exponent ≤ a.exponent then addOrdered mode a b
  else addOrdered mode b a

/-- The product of two numbers other than zero. -/
def mul (a b : Working) : Option Working := do
  let (high, low) ← a.significand.mulWide b.significand
  let significand ← shiftRightJamWide high low 126
  ofParts (a.sign ^^ b.sign) (← int32? (a.exponent + b.exponent)) significand

/-- A quotient between one and two as a significand. -/
def divideOrdered (sign : Bool) (exponent : Int) (dividend divisor : Wide) : Option Working := do
  let (quotient, rest) ← divideFrom divisor 127 dividend 0
  return ⟨sign, exponent, quotient ||| bit (rest ≠ 0)⟩

/-- The quotient of two numbers other than zero, with all bits of the working form. -/
def div (a b : Working) : Option Working := do
  let exponent ← int32? (a.exponent - b.exponent)
  if a.significand < b.significand then
    divideOrdered (a.sign ^^ b.sign) (← int32? (exponent - 1)) (a.significand <<< 1) b.significand
  else divideOrdered (a.sign ^^ b.sign) exponent a.significand b.significand

/-- The root of a positive number, with 120 bits.  Where the exponent is odd, the radicand takes a
factor of two from it. -/
def sqrt (a : Working) : Option Working := do
  let shift ← uint32? (112 + a.exponent % 2)
  let high ← a.significand.shr? (← uint32? (128 - shift))
  let low ← a.significand.shl? shift
  let (root, rest) ← rootFrom high low 120 0 0
  return ⟨false, a.exponent / 2, (root <<< 7) ||| bit (rest ≠ 0)⟩

/-- A rest with its quotient.  A rest of zero has the sign of the dividend. -/
def settleRest (zeroSign sign : Bool) (exponent : Int) (rest : Wide) (quotient : BitVec 64) :
    Option (Working × BitVec 64) :=
  if rest = 0 then some (zero zeroSign, quotient)
  else do return (← ofParts sign exponent rest, quotient)

/-- The rest of dividing numbers other than zero to an integer, which is truncated or, with
`nearest`, rounded to the nearest one with ties to even. -/
def remainder (nearest : Bool) (a b : Working) : Option (Working × BitVec 64) := do
  let below ← int32? (b.exponent - 1)
  if a.exponent < below then return (a, 0)
  else if a.exponent = below then
    -- the quotient is less than one, and can only be more than a half
    if nearest && b.significand < a.significand then
      let rest ← sub? (b.significand <<< 1) a.significand
      return (← ofParts (!a.sign) below rest, 1)
    else return (a, 0)
  else
    let steps ← uint32? (← int32? (a.exponent - b.exponent))
    let (rest, quotient) ← reduceFrom b.significand steps a.significand 0
    if nearest && (b.significand < rest <<< 1 ||
        (rest <<< 1 == b.significand && quotient.getLsbD 0)) then
      settleRest a.sign (!a.sign) b.exponent (← b.significand.sub? rest) (quotient + 1)
    else settleRest a.sign a.sign b.exponent rest quotient

end Working

end M68k
