import M68k.Fp.Status

/-!
# Binary interchange formats and their encodings

A `Format` gives the widths of the fields; `Fp f` is one encoding of format `f`: a sign, a biased
exponent and the stored significand.  The 80-bit extended format stores its integer bit, so the same
number can have several encodings there (unnormals, pseudo-denormals), and all of them are
classified here.

A finite encoding denotes `± coefficient · 2 ^ unitExponent` (`Fp.coefficient`, `Fp.unitExponent`).

* `Fp.ofBits_toBits`, `Fp.toBits_ofBits` — encodings and bit patterns correspond one to one;
* `Fp.quiet_idem` — quieting twice is quieting once.
-/

namespace M68k

/-- The field layout of a binary interchange format. -/
structure Format where
  /-- Significant bits, the integer bit included. -/
  precision : Nat
  /-- Width of the biased exponent. -/
  exponentBits : Nat
  /-- Exponent bias. -/
  bias : Nat
  /-- Whether the integer bit is stored. -/
  explicitInteger : Bool
  deriving DecidableEq, Repr

namespace Format

/-- Bits of the significand below the integer bit. -/
abbrev fractionBits (f : Format) : Nat := f.precision - 1

/-- Width of the stored significand. -/
abbrev storedBits (f : Format) : Nat :=
  if f.explicitInteger then f.precision else f.precision - 1

/-- The biased exponent of infinities and NaNs. -/
abbrev exponentMax (f : Format) : Nat := Nat.pow 2 f.exponentBits - 1

/-- Width of a whole encoding. -/
abbrev width (f : Format) : Nat := 1 + f.exponentBits + f.storedBits

end Format

/-- Single precision. -/
abbrev binary32 : Format := ⟨24, 8, 0x7F, false⟩

/-- Double precision. -/
abbrev binary64 : Format := ⟨53, 11, 0x3FF, false⟩

/-- Extended precision, with its integer bit stored. -/
abbrev extended80 : Format := ⟨64, 15, 0x3FFF, true⟩

/-- Quadruple precision. -/
abbrev binary128 : Format := ⟨113, 15, 0x3FFF, false⟩

/-- An encoding of format `f`. -/
structure Fp (f : Format) where
  sign : Bool
  exponent : BitVec f.exponentBits
  significand : BitVec f.storedBits
  deriving DecidableEq, Repr

/-- An encoding in extended precision, the format of the floating-point registers. -/
abbrev Extended := Fp extended80

/-- The four kinds of encodings. -/
inductive Kind where
  | zero
  | finite
  | infinity
  | nan
  deriving DecidableEq, Repr, Inhabited

namespace Fp

variable {f : Format}

instance : Inhabited (Fp f) := ⟨⟨false, 0, 0⟩⟩

/-- The encoding with the given fields, each cut to its width; an integer bit that the format does
not store is dropped by the cut. -/
def ofFields (f : Format) (sign : Bool) (exponent significand : Nat) : Fp f :=
  ⟨sign, BitVec.ofNat _ exponent, BitVec.ofNat _ significand⟩

/-- The bit pattern of an encoding: sign, exponent, significand from the top. -/
def toBits (x : Fp f) : BitVec f.width :=
  BitVec.ofBool x.sign ++ x.exponent ++ x.significand

/-- The encoding with a given bit pattern. -/
def ofBits (f : Format) (bits : BitVec f.width) : Fp f :=
  ⟨bits.getLsbD (f.exponentBits + f.storedBits),
    bits.extractLsb' f.storedBits f.exponentBits,
    bits.extractLsb' 0 f.storedBits⟩

/-- The bits below the integer bit. -/
def fraction (x : Fp f) : Nat := x.significand.toNat % Nat.pow 2 f.fractionBits

/-- The kind of an encoding.  With a stored integer bit, a zero significand means zero whatever the
exponent, and the integer bit of an infinity or NaN has no meaning. -/
def kind (x : Fp f) : Kind :=
  if x.exponent.toNat = f.exponentMax then
    if x.fraction = 0 then .infinity else .nan
  else if x.significand = 0 ∧ (x.exponent = 0 ∨ f.explicitInteger) then .zero
  else .finite

/-- Whether the encoding is a quiet or signalling NaN. -/
def isNaN (x : Fp f) : Bool := x.kind == .nan

/-- Whether the top fraction bit, which makes a NaN quiet, is set. -/
def quietBit (x : Fp f) : Bool := x.significand.getLsbD (f.fractionBits - 1)

/-- Whether the encoding is a NaN that signals. -/
def isSignaling (x : Fp f) : Bool := x.isNaN && !x.quietBit

/-- Whether the encoding is an infinity. -/
def isInfinity (x : Fp f) : Bool := x.kind == .infinity

/-- Whether the encoding is one of the two zeros. -/
def isZero (x : Fp f) : Bool := x.kind == .zero

/-- Whether the number is non-zero with the least exponent. -/
def isSubnormal (x : Fp f) : Bool := x.exponent == 0 && !x.isZero

/-- The zero of a sign. -/
def zero (f : Format) (sign : Bool) : Fp f := ofFields f sign 0 0

/-- The infinity of a sign; where the integer bit is stored, it is set. -/
def infinity (f : Format) (sign : Bool) : Fp f :=
  ofFields f sign f.exponentMax (Nat.pow 2 f.fractionBits)

/-- The NaN of an invalid operation: positive, with every significand bit set. -/
def defaultNaN (f : Format) : Fp f := ⟨false, BitVec.allOnes _, BitVec.allOnes _⟩

/-- The same encoding with the other sign; NaNs are no exception. -/
def negate (x : Fp f) : Fp f := { x with sign := !x.sign }

/-- The same encoding with a clear sign. -/
def abs (x : Fp f) : Fp f := { x with sign := false }

/-- The bits that make a NaN quiet: the top fraction bit and a stored integer bit. -/
def quietMask (f : Format) : BitVec f.storedBits :=
  BitVec.ofNat _
    (Nat.pow 2 (f.fractionBits - 1) + if f.explicitInteger then Nat.pow 2 f.fractionBits else 0)

/-- A NaN made quiet, with sign and payload kept. -/
def quiet (x : Fp f) : Fp f :=
  ⟨x.sign, BitVec.allOnes _, x.significand ||| quietMask f⟩

/-- The significand of a finite encoding as a natural number, the implied integer bit included. -/
def coefficient (x : Fp f) : Nat :=
  x.significand.toNat + if f.explicitInteger ∨ x.exponent = 0 then 0 else Nat.pow 2 f.fractionBits

/-- The exponent of the last place of a finite encoding; the exponent field 0 counts as 1. -/
def unitExponent (x : Fp f) : Int :=
  (max 1 x.exponent.toNat : Nat) - (f.bias : Int) - f.fractionBits

/-- The exponent of the leading one of a finite non-zero encoding. -/
def lead (x : Fp f) : Int := x.unitExponent + x.coefficient.log2

/-- The number that a finite encoding denotes is `signedCoefficient · 2 ^ unitExponent`. -/
def signedCoefficient (x : Fp f) : Int :=
  if x.sign then -(x.coefficient : Int) else x.coefficient

/-- Raises `invalid` and gives the default NaN. -/
def invalid (f : Format) : Raised (Fp f) := ⟨defaultNaN f, Flags.invalid⟩

/-- The NaN result of two operands of which one is a NaN: the first NaN made quiet.  A signalling
operand raises `invalid`, be it chosen or not. -/
def propagateNaN (a b : Fp f) : Raised (Fp f) :=
  ⟨if a.isNaN then a.quiet else b.quiet,
    Flags.when (a.isSignaling || b.isSignaling) Flags.invalid⟩

/-- Quieting twice is quieting once. -/
theorem quiet_idem (x : Fp f) : x.quiet.quiet = x.quiet := by
  simp [quiet, BitVec.or_assoc]

theorem negate_negate (x : Fp f) : x.negate.negate = x := by
  simp [negate]

/-- An encoding is determined by its bit pattern. -/
theorem ofBits_toBits (x : Fp f) : ofBits f x.toBits = x := by
  obtain ⟨s, e, m⟩ := x
  have above : ¬ f.exponentBits + f.storedBits < f.storedBits := by omega
  simp only [ofBits, toBits, mk.injEq]
  refine ⟨?_, ?_, ?_⟩
  · simp [BitVec.getLsbD_append, above, -BitVec.getLsbD_eq_getElem]
  all_goals
    apply BitVec.eq_of_getLsbD_eq
    intro i hi
    simp [BitVec.getLsbD_append, hi]

/-- Every bit pattern of the right width is an encoding. -/
theorem toBits_ofBits (bits : BitVec f.width) : (ofBits f bits).toBits = bits := by
  apply BitVec.eq_of_getLsbD_eq
  intro i hi
  have hi' : i < 1 + f.exponentBits + f.storedBits := hi
  simp only [toBits, ofBits, BitVec.getLsbD_append, BitVec.getLsbD_extractLsb']
  split
  · next h => simp [h]
  · next h =>
    split
    · next h' =>
      rw [show f.storedBits + (i - f.storedBits) = i by omega]
      simp [h']
    · next h' =>
      rw [show i = f.exponentBits + f.storedBits by omega]
      simp

end Fp

end M68k
