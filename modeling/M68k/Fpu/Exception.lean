import M68k.Fp.Extended

/-!
# Control and status register of the floating-point unit

The control register holds the rounding mode and precision; the status register holds the condition
codes, the quotient byte, the exception status byte of the last instruction and the accrued
exception byte, which only a write to the register clears.

* `accrue_zero` — no exception accrues nothing.
-/

namespace M68k

namespace Fpu

/-- A control or status register. -/
abbrev Register := BitVec 32

/-- Bits that the control register has. -/
def controlMask : Register := 0x0000FFF0#32

/-- Bits that the status register has. -/
def statusMask : Register := 0x0FFFFFF8#32

/-! ## Condition codes -/

/-- The result is negative. -/
def negativeCode : Register := 0x08000000#32

/-- The result is zero. -/
def zeroCode : Register := 0x04000000#32

/-- The result is an infinity. -/
def infinityCode : Register := 0x02000000#32

/-- The result is a NaN, or the operands have no order. -/
def nanCode : Register := 0x01000000#32

/-- The four condition codes. -/
def codeMask : Register := 0x0F000000#32

/-- Sign and low seven bits of an integer quotient. -/
def quotientMask : Register := 0x00FF0000#32

/-! ## Exception status byte -/

/-- A signalling predicate was tested on unordered operands. -/
def branchUnordered : Register := 0x8000#32

/-- An operand is a signalling NaN. -/
def signalingNaN : Register := 0x4000#32

/-- The operation has no result for its operands. -/
def operandError : Register := 0x2000#32

/-- The result is too large. -/
def overflowed : Register := 0x1000#32

/-- The result is tiny and inexact. -/
def underflowed : Register := 0x0800#32

/-- A finite number was divided by zero, or a pole was hit. -/
def dividedByZero : Register := 0x0400#32

/-- A binary result was rounded. -/
def inexactResult : Register := 0x0200#32

/-- A decimal operand was rounded. -/
def inexactDecimal : Register := 0x0100#32

/-- The exception status byte. -/
def exceptionMask : Register := 0x0000FF00#32

/-! ## Accrued exception byte -/

/-- The accrued exceptions that a set of exceptions adds.  Underflow accrues only together with an
inexact result. -/
def accrue (exceptions : Register) : Register :=
  let any (mask : Register) : Bool := exceptions &&& mask != 0
  let bit (condition : Bool) (value : Register) : Register := if condition then value else 0
  bit (any (branchUnordered ||| signalingNaN ||| operandError)) 0x80
    ||| bit (any overflowed) 0x40
    ||| bit (any underflowed && any inexactResult) 0x20
    ||| bit (any dividedByZero) 0x10
    ||| bit (any (overflowed ||| inexactResult ||| inexactDecimal)) 0x08

/-- The exceptions that raised flags stand for.  An invalid operation counts as a signalling NaN if
an operand is one, else as an operand error. -/
def exceptionsOfFlags (flags : Flags) (signalingOperand : Bool) : Register :=
  let bit (flag : Flags) (value : Register) : Register := if flags.includes flag then value else 0
  bit Flags.invalid (if signalingOperand then signalingNaN else operandError)
    ||| bit Flags.divideByZero dividedByZero
    ||| bit Flags.overflow overflowed
    ||| bit Flags.underflow underflowed
    ||| bit Flags.inexact inexactResult

/-- The condition codes of a value. -/
def codesOf (value : Extended) : Register :=
  (if value.sign then negativeCode else 0) |||
    match value.kind with
    | .nan => nanCode
    | .infinity => infinityCode
    | .zero => zeroCode
    | .finite => 0

/-- The rounding environment described by a control register. -/
def environmentOf (control : Register) : Environment where
  rounding := .ofCode (control >>> 4).toNat
  precision := .ofCode (control >>> 6).toNat

/-- No exception accrues nothing. -/
@[simp] theorem accrue_zero : accrue 0#32 = 0#32 := rfl

end Fpu

end M68k
