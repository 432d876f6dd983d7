import M68k.Cpu.Size
import M68k.Cpu.StatusRegister

/-!
# Integer arithmetic with condition codes

Every operation takes operands as 32-bit words, of which the size counts, and the status register
before; it returns the result and the status register afterwards.

Carry and overflow are read off the top bits of operands and result, as the adder forms them.

* `addCarry_value`, `subBorrow_value` — results are sums and differences modulo the size.
-/

namespace M68k

namespace Alu

/-- A sum or difference with the carry out of its top bit and the signed overflow. -/
structure Sum (w : Nat) where
  value : BitVec w
  carry : Bool
  overflow : Bool
  deriving DecidableEq, Repr

/-- `d + s`, and one more if `x` is set. -/
def addCarry {w : Nat} (s d : BitVec w) (x : Bool) : Sum w :=
  let r := s + d + (BitVec.ofBool x).setWidth w
  { value := r
    carry := s.msb && d.msb || !r.msb && (s.msb || d.msb)
    overflow := s.msb != r.msb && d.msb != r.msb }

/-- `d - s`, and one less if `x` is set. -/
def subBorrow {w : Nat} (s d : BitVec w) (x : Bool) : Sum w :=
  let r := d - s - (BitVec.ofBool x).setWidth w
  { value := r
    carry := s.msb && !d.msb || r.msb && !d.msb || s.msb && r.msb
    overflow := s.msb != d.msb && r.msb != d.msb }

theorem addCarry_value {w : Nat} (s d : BitVec w) : (addCarry s d false).value = s + d := by
  simp [addCarry]

theorem subBorrow_value {w : Nat} (s d : BitVec w) : (subBorrow s d false).value = d - s := by
  simp [subBorrow]

/-- Sets the flags for negative and zero from a result. -/
def signCodes (size : Size) (result : BitVec 32) (sr : StatusRegister) : StatusRegister :=
  (sr.set .n (size.part result).msb).set .z (size.part result == 0)

/-- The codes of moves and logical operations: sign and zero of the result, no carry and no
overflow. -/
def logicCodes (size : Size) (result : BitVec 32) (sr : StatusRegister) : StatusRegister :=
  ((signCodes size result sr).set .v false).set .c false

/-- The codes of a sum or difference. -/
def sumCodes {w : Nat} (sum : Sum w) (sr : StatusRegister) : StatusRegister :=
  ((((sr.set .n sum.value.msb).set .z (sum.value == 0)).set .c sum.carry).set .x sum.carry).set .v
    sum.overflow

/-- The codes of a step of a sum or difference of long numbers: zero is only ever cleared, so that
in the end it tells about the whole number. -/
def chainCodes {w : Nat} (sum : Sum w) (sr : StatusRegister) : StatusRegister :=
  ((((sr.set .n sum.value.msb).set .z (sr.has .z && sum.value == 0)).set .c sum.carry).set .x
    sum.carry).set .v sum.overflow

/-- `dst + src`. -/
def add (size : Size) (src dst : BitVec 32) (sr : StatusRegister) : BitVec 32 × StatusRegister :=
  let sum := addCarry (size.part src) (size.part dst) false
  (sum.value.setWidth 32, sumCodes sum sr)

/-- `dst - src`. -/
def sub (size : Size) (src dst : BitVec 32) (sr : StatusRegister) : BitVec 32 × StatusRegister :=
  let sum := subBorrow (size.part src) (size.part dst) false
  (sum.value.setWidth 32, sumCodes sum sr)

/-- The codes of `dst - src`, with the extend flag kept. -/
def cmp (size : Size) (src dst : BitVec 32) (sr : StatusRegister) : StatusRegister :=
  (sub size src dst sr).2.set .x (sr.has .x)

/-- `dst + src` with the extend flag as carry. -/
def addx (size : Size) (src dst : BitVec 32) (sr : StatusRegister) : BitVec 32 × StatusRegister :=
  let sum := addCarry (size.part src) (size.part dst) (sr.has .x)
  (sum.value.setWidth 32, chainCodes sum sr)

/-- `dst - src` with the extend flag as borrow. -/
def subx (size : Size) (src dst : BitVec 32) (sr : StatusRegister) : BitVec 32 × StatusRegister :=
  let sum := subBorrow (size.part src) (size.part dst) (sr.has .x)
  (sum.value.setWidth 32, chainCodes sum sr)

/-- `0 - dst`. -/
def neg (size : Size) (dst : BitVec 32) (sr : StatusRegister) : BitVec 32 × StatusRegister :=
  sub size dst 0 sr

/-- `0 - dst` with the extend flag as borrow. -/
def negx (size : Size) (dst : BitVec 32) (sr : StatusRegister) : BitVec 32 × StatusRegister :=
  subx size dst 0 sr

/-! ## Decimal digits -/

/-- A byte of decimal digits with carry or borrow and the overflow flag.  Overflow has no arithmetic
meaning here: it tells whether the correction of the digits changed the top bit. -/
structure DecimalSum where
  value : BitVec 8
  carry : Bool
  overflow : Bool
  deriving DecidableEq, Repr

/-- `dst + src`, and one more if `extend` is set, in decimal digits.  Digit sums above nine are
corrected by six, the lower digit first. -/
def bcdAdd (src dst : BitVec 8) (extend : Bool) : DecimalSum :=
  let s := src.toNat
  let d := dst.toNat
  let low := d % 16 + s % 16 + extend.toNat
  let correction := if 9 < low then 6 else 0
  let uncorrected := d + s + extend.toNat
  let carry : Bool := 9 < d / 16 + s / 16 + (low + correction) / 16
  let result := uncorrected + correction + if carry then 0x60 else 0
  { value := BitVec.ofNat 8 result
    carry
    overflow := !uncorrected.testBit 7 && result.testBit 7 }

/-- `dst - src`, and one less if `extend` is set, in decimal digits.  A digit that borrows is
corrected by six. -/
def bcdSub (src dst : BitVec 8) (extend : Bool) : DecimalSum :=
  let s := src.toNat
  let d := dst.toNat
  let uncorrected := dst - src - (BitVec.ofBool extend).setWidth 8
  let lowBorrows : Bool := d % 16 < s % 16 + extend.toNat
  let highBorrows : Bool := d / 16 < s / 16 + lowBorrows.toNat
  let result := uncorrected - (if lowBorrows then 6 else 0) - if highBorrows then 0x60 else 0
  { value := result
    carry := highBorrows || (lowBorrows && uncorrected.toNat < 6)
    overflow := uncorrected.msb && !result.msb }

/-- The codes of a decimal result; zero is only ever cleared. -/
def bcdCodes (sum : DecimalSum) (sr : StatusRegister) : StatusRegister :=
  ((((sr.set .c sum.carry).set .x sum.carry).set .v sum.overflow).set .n sum.value.msb).set .z
    (sr.has .z && sum.value == 0)

end Alu

end M68k
