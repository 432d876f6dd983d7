import M68k.Cpu.Instruction
import M68k.Cpu.Model

/-!
# Clock cycles

The first two models are timed by a table: cycles of an instruction on registers, more for each
operand in memory, and for multiplication and division cycles that depend on the operands.  On later
models caches and overlap make exact counts impossible, and a flat table of best cases stands in.

* `operand_register` — operands in registers cost nothing.
-/

namespace M68k

namespace Timing

/-- Cycles of taking an interrupt. -/
def interrupt : Nat := 44

/-- Cycles of a step of a stopped processor. -/
def stopped : Nat := 4

/-- Cycles of entering an exception by a vector. -/
def exception (model : Model) (vector : BitVec 8) : Nat :=
  match vector.toNat with
  | 2 | 3 => 50
  | 5 => if model.isEarly then 38 else 20
  | 6 => if model.isEarly then 40 else 20
  | _ => if model.isEarly then 34 else 20

/-- Cycles of reaching a word operand on early models; a long word costs four more. -/
def earlyOperand : AddressMode → Nat
  | .dataReg _ | .addrReg _ => 0
  | .indirect _ | .postIncrement _ | .immediate => 4
  | .preDecrement _ => 6
  | .displacement _ | .absShort | .pcDisplacement => 8
  | .index _ | .pcIndex => 10
  | .absLong => 12

/-- Cycles of reaching an operand on later models. -/
def lateOperand : AddressMode → Nat
  | .dataReg _ | .addrReg _ => 0
  | .index _ | .pcIndex => 4
  | _ => 2

/-- Cycles of reaching an operand. -/
def operand (model : Model) (mode : AddressMode) (size : Size) : Nat :=
  if model.isEarly then
    match earlyOperand mode with
    | 0 => 0
    | cycles => if size = .long then cycles + 4 else cycles
  else lateOperand mode

/-- Cycles of an instruction on early models, operands in memory aside. -/
def earlyInstruction : Instruction → Nat
  | .alu _ .long _ _ false => 6
  | .alu _ .long _ _ true => 12
  | .alu _ _ _ _ true => 8
  | .alu _ _ _ _ false => 4
  | .aluAddress .cmp _ _ _ => 6
  | .aluAddress _ _ _ _ => 8
  | .aluImmediate _ .long _ => 16
  | .aluImmediate _ _ _ => 8
  | .aluQuick _ .long _ _ => 8
  | .aluQuick _ _ _ (.addrReg _) => 8
  | .aluExtend _ .long _ _ true => 30
  | .aluExtend _ _ _ _ true => 18
  | .aluExtend _ .long _ _ false => 8
  | .aluExtend _ _ _ _ false => 6
  | .unary _ _ _ | .moveFromSr _ | .exg _ _ | .nbcd _ => 6
  | .cmpm .long _ _ => 20
  | .cmpm _ _ _ | .unlk _ | .moveToCcr _ | .moveToSr _ | .pea _ => 12
  | .toCcr _ | .toSr _ | .rtr | .rte | .rtd => 20
  | .bcd _ _ _ true => 18
  | .bcd _ _ _ false => 6
  | .link _ _ | .jsr _ | .rts => 16
  | .mul _ _ _ => 38
  -- The time of a division depends on its operands alone.
  | .div _ _ _ => 0
  | .chk _ _ _ => 10
  | .movep .long _ _ _ => 24
  | .movep _ _ _ _ => 16
  | .shiftRegister _ _ .long _ _ => 8
  | .shiftRegister _ _ _ _ _ => 6
  | .movem _ _ _ | .shiftMemory _ _ _ | .bit _ _ _ | .jmp _ | .bcc _ _ | .dbcc _ _ => 8
  | .reset => 132
  | _ => 4

/-- Cycles of an instruction on later models. -/
def lateInstruction : Instruction → Nat
  | .mulLong _ => 43
  | .divLong _ => 90
  | .mul _ _ _ => 27
  | .div false _ _ => 44
  | .div true _ _ => 56
  | .rte | .rtr => 20
  | .rts | .rtd => 10
  | .jsr _ => 7
  | .bcc condition _ => if condition = 1 then 7 else 6
  | .dbcc _ _ | .jmp _ => 6
  | .cas _ _ | .cas2 _ => 16
  | .bitField _ _ => 10
  | .movem _ _ _ | .link _ _ | .unlk _ => 8
  | .bcd _ _ _ _ | .pack _ _ _ _ => 6
  | .reset => 518
  | _ => 2

/-- Cycles of an instruction, operands in memory aside. -/
def instruction (model : Model) (i : Instruction) : Nat :=
  if model.isEarly then earlyInstruction i else lateInstruction i

/-- Additional cycles of a multiplication on early models: two for each one in the source, or for
each change between neighbouring bits if it is signed. -/
def multiplication (source : BitVec 16) (signed : Bool) : Nat :=
  let bits := if signed then source <<< 1 ^^^ source else source
  2 * ((List.range 16).filter bits.getLsbD).length

/-- Half the cycles of the steps of an unsigned division on early models.  A step costs two if no
bit is carried out, one less if it then subtracts the divisor. -/
def divisionSteps (divisor : BitVec 32) : Nat → BitVec 32 → Nat
  | 0, _ => 0
  | steps + 1, rest =>
    let shifted := rest <<< 1
    if rest.msb then divisionSteps divisor steps (shifted - divisor)
    else if divisor ≤ shifted then 1 + divisionSteps divisor steps (shifted - divisor)
    else 2 + divisionSteps divisor steps shifted

/-- Cycles of an unsigned division on early models.  An overflow is noticed at once. -/
def unsignedDivision (dividend : BitVec 32) (divisor : BitVec 16) : Nat :=
  if divisor.toNat ≤ dividend.toNat / 65536 then 10
  else 2 * (38 + divisionSteps (divisor.setWidth 32 <<< 16) 15 dividend)

/-- Cycles of a signed division on early models: signs cost a little, and each zero among the
fifteen high bits of the quotient. -/
def signedDivision (dividend : BitVec 32) (divisor : BitVec 16) : Nat :=
  let start := if dividend.msb then 7 else 6
  let magnitude := dividend.toInt.natAbs
  let divisorMagnitude := divisor.toInt.natAbs
  if divisorMagnitude ≤ magnitude / 65536 then 2 * (start + 2)
  else
    let quotient := magnitude / divisorMagnitude
    let signs := if divisor.msb then 55 else if dividend.msb then 56 else 54
    let zeros := ((List.range 15).filter fun i => !quotient.testBit (15 - i)).length
    2 * (start + signs + zeros)

/-- Operands in registers cost nothing. -/
theorem operand_register (model : Model) (r : RegisterNumber) (size : Size) :
    operand model (.dataReg r) size = 0 ∧ operand model (.addrReg r) size = 0 := by
  cases model <;> exact ⟨rfl, rfl⟩

end Timing

end M68k
