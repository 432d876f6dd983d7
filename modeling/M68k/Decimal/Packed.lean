import M68k.Fpu.Exception
import M68k.Fpu.Image

/-!
# Packed decimal numbers

A packed decimal number fills three long words: sign of the mantissa, sign of the exponent, three
exponent digits (a fourth for results out of range), and a mantissa of one integer digit and sixteen
fraction digits, four bits each.  The exponent bits all ones mean an infinity or a NaN.

Both directions are exact up to one rounding.  A load keeps about a hundred leading bits of a number
and jams the others in the last of them (`leadingBits`).  The decimal exponent of a number is found
from any first guess (`floorLog10`), so that nothing depends on how good the guess is.

* `not_isBelowPow10_floorLog10`, `isBelowPow10_succ_floorLog10` — the decimal exponent is that of
  the leading digit, whatever the guess.
-/

namespace M68k

namespace Decimal

theorem pow10_zero : Nat.pow 10 0 = 1 := rfl

theorem pow10_succ (n : Nat) : Nat.pow 10 (n + 1) = Nat.pow 10 n * 10 := rfl

/-- The order of a positive fraction and a power of ten: whether the fraction is less. -/
def isBelowPow10 (numerator denominator : Nat) (power : Int) : Bool :=
  if 0 ≤ power then numerator < denominator * Nat.pow 10 power.toNat
  else numerator * Nat.pow 10 (-power).toNat < denominator

/-- A power of ten that exceeds the fraction has an exponent above the negated denominator. -/
theorem lt_of_isBelowPow10 {numerator denominator : Nat} (h : 0 < numerator) {power : Int}
    (below : isBelowPow10 numerator denominator power) : -(denominator : Int) < power := by
  unfold isBelowPow10 at below
  split at below
  · next hp =>
    simp only [decide_eq_true_eq] at below
    have : 0 < denominator := by
      cases denominator with
      | zero => simp at below
      | succ n => omega
    omega
  · next hp =>
    simp only [decide_eq_true_eq] at below
    have h1 : (-power).toNat < Nat.pow 10 (-power).toNat := Nat.lt_pow_self (by decide)
    have h2 : Nat.pow 10 (-power).toNat ≤ numerator * Nat.pow 10 (-power).toNat :=
      Nat.le_mul_of_pos_left _ h
    omega

/-- A power of ten that does not exceed the fraction has an exponent below the numerator. -/
theorem lt_of_not_isBelowPow10 {numerator denominator : Nat} (hn : 0 < numerator)
    (h : 0 < denominator) {power : Int} (above : ¬ isBelowPow10 numerator denominator power) :
    power < numerator := by
  unfold isBelowPow10 at above
  split at above
  · next hp =>
    simp only [decide_eq_true_eq] at above
    have h1 : power.toNat < Nat.pow 10 power.toNat := Nat.lt_pow_self (by decide)
    have h2 : Nat.pow 10 power.toNat ≤ denominator * Nat.pow 10 power.toNat :=
      Nat.le_mul_of_pos_left _ h
    omega
  · omega

/-- Lowers a guess until its power of ten does not exceed the fraction. -/
def lowerLog10 (numerator denominator : Nat) (guess : Int) : Int :=
  if h : 0 < numerator ∧ isBelowPow10 numerator denominator guess then
    lowerLog10 numerator denominator (guess - 1)
  else guess
termination_by (guess + denominator).toNat
decreasing_by
  have := lt_of_isBelowPow10 h.1 h.2
  omega

/-- Raises a guess as long as the next power of ten does not exceed the fraction. -/
def raiseLog10 (numerator denominator : Nat) (guess : Int) : Int :=
  if h : 0 < numerator ∧ 0 < denominator ∧ ¬ isBelowPow10 numerator denominator (guess + 1) then
    raiseLog10 numerator denominator (guess + 1)
  else guess
termination_by (numerator - guess).toNat
decreasing_by
  have := lt_of_not_isBelowPow10 h.1 h.2.1 h.2.2
  omega

/-- The exponent of the leading decimal digit of a positive fraction, found from any first guess. -/
def floorLog10 (numerator denominator : Nat) (guess : Int) : Int :=
  raiseLog10 numerator denominator (lowerLog10 numerator denominator guess)

/-- Powers of ten below the fraction stay below it when the exponent falls. -/
theorem isBelowPow10_mono {numerator denominator : Nat} {power : Int}
    (h : isBelowPow10 numerator denominator power) :
    isBelowPow10 numerator denominator (power + 1) := by
  unfold isBelowPow10 at h ⊢
  by_cases hp : 0 ≤ power
  · have e : (power + 1).toNat = power.toNat + 1 := by omega
    rw [if_pos hp] at h
    rw [if_pos (by omega), e, pow10_succ]
    simp only [decide_eq_true_eq] at h ⊢
    have : denominator * (Nat.pow 10 power.toNat * 10)
        = 10 * (denominator * Nat.pow 10 power.toNat) := by
      simp [Nat.mul_comm, Nat.mul_left_comm]
    omega
  · rw [if_neg hp] at h
    simp only [decide_eq_true_eq] at h
    have e : (-power).toNat = (-(power + 1)).toNat + 1 := by omega
    rw [e, pow10_succ, ← Nat.mul_assoc] at h
    by_cases hq : 0 ≤ power + 1
    · have z : (-(power + 1)).toNat = 0 := by omega
      have z' : (power + 1).toNat = 0 := by omega
      rw [if_pos hq]
      simp only [z, z', pow10_zero, Nat.mul_one, decide_eq_true_eq] at h ⊢
      omega
    · rw [if_neg hq]
      simp only [decide_eq_true_eq]
      omega

theorem not_isBelowPow10_lowerLog10 {numerator : Nat} (hn : 0 < numerator) (denominator : Nat)
    (guess : Int) :
    ¬ isBelowPow10 numerator denominator (lowerLog10 numerator denominator guess) := by
  fun_induction lowerLog10 with
  | case1 guess _ ih => exact ih
  | case2 guess h => exact fun below => h ⟨hn, below⟩

theorem not_isBelowPow10_raiseLog10 {numerator denominator : Nat} {guess : Int}
    (h : ¬ isBelowPow10 numerator denominator guess) :
    ¬ isBelowPow10 numerator denominator (raiseLog10 numerator denominator guess) := by
  fun_induction raiseLog10 with
  | case1 guess step ih => exact ih step.2.2
  | case2 guess _ => exact h

theorem isBelowPow10_succ_raiseLog10 {numerator denominator : Nat} (hn : 0 < numerator)
    (hd : 0 < denominator) (guess : Int) :
    isBelowPow10 numerator denominator (raiseLog10 numerator denominator guess + 1) := by
  fun_induction raiseLog10 with
  | case1 guess _ ih => exact ih
  | case2 guess h =>
    exact Decidable.byContradiction fun above => h ⟨hn, hd, above⟩

/-- The leading digit's power of ten does not exceed the fraction, whatever the guess. -/
theorem not_isBelowPow10_floorLog10 {numerator : Nat} (hn : 0 < numerator) (denominator : Nat)
    (guess : Int) :
    ¬ isBelowPow10 numerator denominator (floorLog10 numerator denominator guess) :=
  not_isBelowPow10_raiseLog10 (not_isBelowPow10_lowerLog10 hn denominator guess)

/-- The next power of ten does exceed it. -/
theorem isBelowPow10_succ_floorLog10 {numerator denominator : Nat} (hn : 0 < numerator)
    (hd : 0 < denominator) (guess : Int) :
    isBelowPow10 numerator denominator (floorLog10 numerator denominator guess + 1) :=
  isBelowPow10_succ_raiseLog10 hn hd _

/-! ## Decoding -/

/-- Appends the eight decimal digits of a word to a number; digits above nine count at face
value. -/
def appendDigits (number : Nat) (word : BitVec 32) : Nat :=
  [28, 24, 20, 16, 12, 8, 4, 0].foldl
    (fun n shift => n * 10 + (word.extractLsb' shift 4).toNat) number

/-- The mantissa as a whole number of seventeen digits. -/
def mantissa (image : Image) : Nat :=
  appendDigits (appendDigits (image.first.extractLsb' 0 4).toNat image.second) image.third

/-- The exponent of the integer digit. -/
def exponent (image : Image) : Int :=
  let digit (shift : Nat) : Nat := (image.first.extractLsb' shift 4).toNat
  let size : Int := digit 24 * 100 + digit 20 * 10 + digit 16
  if image.first.getLsbD 30 then -size else size

/-- The exponent bits of infinities and NaNs. -/
def specialMask : BitVec 32 := 0x7FFF0000#32

/-- The number of bits of a number. -/
def bitLength (n : Nat) : Nat := if n = 0 then 0 else n.log2 + 1

/-- A quotient whose last bit is also set if the division leaves a remainder. -/
def stickyQuotient (n d : Nat) : Nat := n / d ||| if n % d = 0 then 0 else 1

/-- The hundred leading bits of a number and the exponent of the last of them, in which all bits
that follow are jammed.  A number of up to 120 bits stays whole. -/
def topBits (n : Nat) : Nat × Nat :=
  let length := bitLength n
  if length ≤ 120 then (n, 0)
  else (stickyQuotient n (Nat.pow 2 (length - 100)), length - 100)

/-- Leading bits of `mantissa · 10 ^ power` and the exponent of the last of them.  A fraction is
divided until its quotient has about a hundred bits. -/
def leadingBits (mantissa : Nat) (power : Int) : Nat × Int :=
  if 0 ≤ power then
    let (bits, shift) := topBits (mantissa * Nat.pow 10 power.toNat)
    (bits, shift)
  else
    let denominator := Nat.pow 10 (-power).toNat
    let extra := bitLength denominator + 100 - bitLength mantissa
    (stickyQuotient (mantissa <<< extra) denominator, -(extra : Int))

/-- The value of a packed decimal operand, rounded to extended precision, and the exceptions of the
conversion. -/
def decode (env : Environment) (image : Image) : Extended × Fpu.Register :=
  let sign := image.first.getLsbD 31
  if image.first &&& specialMask = specialMask then
    if image.second = 0 ∧ image.third = 0 then (Fp.infinity extended80 sign, 0)
    else (⟨sign, BitVec.allOnes 15, image.second ++ image.third⟩, 0)
  else if mantissa image = 0 then (Fp.zero extended80 sign, 0)
  else
    let (bits, shift) := leadingBits (mantissa image) (exponent image - 16)
    let result := Fp.encode extended80 env 64 sign (.dyadic bits shift)
    (result.value, if result.flags.includes Flags.inexact then Fpu.inexactDecimal else 0)

/-! ## Encoding -/

/-- The number of digits of a mantissa. -/
def maxDigits : Nat := 17

/-- The number of significant digits that a k-factor asks for, given the exponent of the leading
digit: `k` digits, or `-k` digits after the decimal point. -/
def digitCount (k : Int) (lead : Int) : Nat :=
  if 0 < k then min k.toNat maxDigits else (max 1 (min (maxDigits : Int) (lead + 1 - k))).toNat

/-- A digit string in place: `word` holds the digits of `number` from `10 ^ low` on. -/
def digitsWord (number low count : Nat) : BitVec 32 :=
  BitVec.ofNat 32 ((List.range count).foldr
    (fun i word => word * 16 + number / Nat.pow 10 (low + i) % 10) 0)

/-- The image of a finite mantissa of seventeen digits and its exponent.  The fourth exponent digit
is only there for exponents out of range. -/
def assemble (sign : Bool) (digits : Nat) (exponent : Int) : Image where
  first :=
    (if sign then 0x80000000#32 else 0) ||| (if exponent < 0 then 0x40000000#32 else 0)
      ||| digitsWord exponent.natAbs 0 3 <<< 16
      ||| digitsWord exponent.natAbs 3 1 <<< 12
      ||| digitsWord digits 16 1
  second := digitsWord digits 8 8
  third := digitsWord digits 0 8

/-- A finite number as a fraction. -/
def fractionOf (x : Extended) : Nat × Nat :=
  Magnitude.shiftedFraction x.coefficient 1 x.unitExponent

/-- The image of a number with the digits that the k-factor asks for, and the exceptions of the
conversion.  The guess for the decimal exponent does not matter. -/
def encodeFrom (guess : Int) (mode : RoundingMode) (k : Int) (x : Extended) :
    Image × Fpu.Register :=
  let special : BitVec 32 := (if x.sign then 0x80000000#32 else 0) ||| specialMask
  match x.kind with
  | .infinity => (⟨special, 0, 0⟩, 0)
  | .nan => (⟨special, x.significand.extractLsb' 32 32, x.significand.extractLsb' 0 32⟩, 0)
  | .zero => (assemble x.sign 0 0, 0)
  | .finite =>
    let (numerator, denominator) := fractionOf x
    let lead := floorLog10 numerator denominator guess
    let count := digitCount k lead
    -- the integer part of |x| · 10 ^ scale has `count` digits
    let scale := (count : Int) - 1 - lead
    let (n, d) :=
      if 0 ≤ scale then (numerator * Nat.pow 10 scale.toNat, denominator)
      else (numerator, denominator * Nat.pow 10 (-scale).toNat)
    let parts := (n / d, Remnant.ofRemainder (n % d) d)
    let rounded := mode.round x.sign parts
    let (digits, lead) :=
      if rounded = Nat.pow 10 count then (Nat.pow 10 (count - 1), lead + 1) else (rounded, lead)
    let exceptions :=
      (if (maxDigits : Int) < k ∨ 999 < lead.natAbs then Fpu.operandError else 0)
        ||| (if parts.2 ≠ .zero then Fpu.inexactResult else 0)
    (assemble x.sign (digits * Nat.pow 10 (maxDigits - count)) lead, exceptions)

/-- A first guess at the decimal exponent, from the exponent of the leading binary digit. -/
def guessLog10 (x : Extended) : Int := x.lead * 30103 / 100000

/-- The image of a number with the digits that the k-factor asks for, and the exceptions of the
conversion. -/
def encode (mode : RoundingMode) (k : Int) (x : Extended) : Image × Fpu.Register :=
  encodeFrom (guessLog10 x) mode k x

end Decimal

end M68k
