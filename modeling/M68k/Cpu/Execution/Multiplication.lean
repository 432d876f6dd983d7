import M68k.Cpu.Alu
import M68k.Cpu.Operand

/-!
# Multiplication and division

Word forms work on one data register, long forms take their registers and their kind from an
extension word.  Quotients are rounded toward zero; if a quotient does not fit, overflow is set and
the registers stay as they were.

* `toInt_of_quotient?` — a signed quotient that is reported is the quotient.
-/

namespace M68k

namespace Execution

open MachineM

/-- An operand as a number. -/
def number {w : Nat} (signed : Bool) (value : BitVec w) : Int :=
  if signed then value.toInt else value.toNat

/-- Quotient and remainder of a division that does not overflow `w` bits. -/
def quotient? (signed : Bool) (w : Nat) (dividend divisor : Int) :
    Option (BitVec w × BitVec w) :=
  let q := dividend.tdiv divisor
  let half := Nat.pow 2 (w - 1)
  let fits : Bool := if signed then -(half : Int) ≤ q ∧ q < half else q < Nat.pow 2 w
  if fits then some (BitVec.ofInt w q, BitVec.ofInt w (dividend.tmod divisor)) else none

/-- What an extension word says about a long multiplication or division. -/
structure LongForm where
  /-- Low product, or quotient and low half of the dividend. -/
  low : RegisterNumber
  /-- High product, or remainder and high half of the dividend. -/
  high : RegisterNumber
  signed : Bool
  /-- Whether product or dividend have 64 bits. -/
  wide : Bool

/-- The form in an extension word. -/
def LongForm.ofExtension (extension : BitVec 16) : LongForm where
  low := .ofField extension 12
  high := .ofField extension 0
  signed := extension.getLsbD 11
  wide := extension.getLsbD 10

variable {β : Type} [Bus β]

/-- Multiplies the low word of a data register. -/
def mul (signed : Bool) (src : AddressMode) (r : RegisterNumber) : MachineM β Unit := do
  let source := (← operand src .word).setWidth 16
  let product := number signed source * number signed ((← data r).setWidth 16)
  let result := BitVec.ofInt 32 product
  setData r result
  setCodes (Alu.logicCodes .long result (← status))
  if (← cpu).model.isEarly then spend (Timing.multiplication source signed)

/-- Multiplies long words. -/
def mulLong (src : AddressMode) : MachineM β Unit := do
  let form := LongForm.ofExtension (← fetch)
  let source ← operand src .long
  let product := number form.signed source * number form.signed (← data form.low)
  let result := BitVec.ofInt 64 product
  let low := result.extractLsb' 0 32
  let codes := ((← status).set .v false).set .c false
  if form.wide then
    setData form.high (result.extractLsb' 32 32)
    setData form.low low
    setCodes ((codes.set .n result.msb).set .z (result == 0))
  else
    setData form.low low
    let overflow := number form.signed low != product
    setCodes (Alu.signCodes .long low (codes.set .v overflow))

/-- A division by zero clears the carry and traps. -/
def divideByZero : MachineM β Unit := do
  setCodes ((← status).set .c false)
  throw (.trap .zeroDivide)

/-- The codes of a division: of its quotient, or overflow. -/
def divisionCodes {w : Nat} (size : Size) (result : Option (BitVec w × BitVec w))
    (sr : StatusRegister) : StatusRegister :=
  let codes := (sr.set .v false).set .c false
  match result with
  | some (quotient, _) => Alu.signCodes size (quotient.setWidth 32) codes
  | none => codes.set .v true

/-- Divides a data register by a word: the quotient goes to its low half and the remainder to its
high half. -/
def div (signed : Bool) (src : AddressMode) (r : RegisterNumber) : MachineM β Unit := do
  let divisor := (← operand src .word).setWidth 16
  let dividend ← data r
  if divisor = 0 then divideByZero
  else
    if (← cpu).model.isEarly then
      spend (if signed then Timing.signedDivision dividend divisor
        else Timing.unsignedDivision dividend divisor)
    let result := quotient? signed 16 (number signed dividend) (number signed divisor)
    if let some (quotient, remainder) := result then setData r (remainder ++ quotient)
    setCodes (divisionCodes .word result (← status))

/-- Divides long words.  The remainder is dropped if its register is that of the quotient. -/
def divLong (src : AddressMode) : MachineM β Unit := do
  let form := LongForm.ofExtension (← fetch)
  let divisor ← operand src .long
  if divisor = 0 then divideByZero
  else
    let low ← data form.low
    let high ← data form.high
    let dividend := if form.wide then number form.signed (high ++ low) else number form.signed low
    let result := quotient? form.signed 32 dividend (number form.signed divisor)
    if let some (quotient, remainder) := result then
      setData form.high remainder
      setData form.low quotient
    setCodes (divisionCodes .long result (← status))

/-- A signed quotient that is reported is the quotient. -/
theorem toInt_of_quotient? {w : Nat} (hw : 0 < w) {dividend divisor : Int}
    {q r : BitVec w} (h : quotient? true w dividend divisor = some (q, r)) :
    q.toInt = dividend.tdiv divisor := by
  simp only [quotient?, if_true, Option.ite_none_right_eq_some, decide_eq_true_eq,
    Option.some.injEq, Prod.mk.injEq] at h
  obtain ⟨⟨hl, hu⟩, rfl, -⟩ := h
  rw [BitVec.toInt_ofInt_eq_self hw hl hu]

end Execution

end M68k
